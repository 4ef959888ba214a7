import StepPlan.Json.Reader
import StepPlan.Proofs.Json.Numeral

/-! Values that are written are read back as they are. The text of a value spells its tokens, one
after the other and whatever follows, and the tokens of a value are read as the value, whatever
encloses it. So both facts carry over from the parts of a value to the whole.
-/

namespace StepPlan.Json

namespace Token

-----------------------------------------------------------------------------------------
-- Quoted texts
-----------------------------------------------------------------------------------------

/-- (Names c unit) means that a unit between quotes stands for a character. -/
inductive Names (c : Char) : Unit16 → Prop
  | char : Names c (.char c)
  | control (small : c.toNat < 32) : Names c (.unit c.toNat)

theorem hexValue?_hexDigit {n : Nat} (below : n < 16) : hexValue? (hexDigit n) = some n := by
  revert n
  decide

/-- A character is escaped by a letter of its own, as a control by its number, or not at all. -/
theorem escapeChar_cases (c : Char)
    : (∃ letter, escapeChar c = ['\\', letter] ∧ letter ≠ 'u' ∧ escape? letter = some c)
      ∨ (c.toNat < 32
        ∧ escapeChar c = ['\\', 'u', '0', '0', hexDigit (c.toNat / 16), hexDigit (c.toNat % 16)])
      ∨ (c ≠ '"' ∧ c ≠ '\\' ∧ ¬ c.toNat < 32 ∧ escapeChar c = [c]) := by
  by_cases named : c ∈ ['"', '\\', '\n', '\r', '\t', '\x08', '\x0c']
  · simp only [List.mem_cons, List.not_mem_nil, or_false] at named
    rcases named with rfl | rfl | rfl | rfl | rfl | rfl | rfl <;>
      exact Or.inl ⟨_, rfl, by decide, rfl⟩
  · simp only [List.mem_cons, List.not_mem_nil, or_false, not_or] at named
    obtain ⟨quote, backslash, line, back, tab, erase, feed⟩ := named
    have eight : c.toNat ≠ 8 := fun code => erase (Char.toNat_inj.mp code)
    have twelve : c.toNat ≠ 12 := fun code => feed (Char.toNat_inj.mp code)
    have rest : escapeChar c = if c.toNat < 32 then
        ['\\', 'u', '0', '0', hexDigit (c.toNat / 16), hexDigit (c.toNat % 16)] else [c] := by
      rw [escapeChar, if_neg quote, if_neg backslash, if_neg line, if_neg back, if_neg tab,
        if_neg eight, if_neg twelve]
    by_cases small : c.toNat < 32
    · exact Or.inr (Or.inl ⟨small, by rw [rest, if_pos small]⟩)
    · exact Or.inr (Or.inr ⟨quote, backslash, small, by rw [rest, if_neg small]⟩)

/-- An escaped character is read as one unit. -/
theorem scanText_escapeChar (read : List Unit16) (c : Char) (rest : List Char)
    : ∃ unit,
        Names c unit
        ∧ scanText read (escapeChar c ++ rest) = scanText (unit :: read) rest := by
  rcases escapeChar_cases c with
    ⟨letter, text, other, named⟩ | ⟨small, text⟩ | ⟨quote, backslash, large, text⟩
  · refine ⟨_, .char, ?_⟩
    rw [text, List.cons_append, List.cons_append, List.nil_append]
    simp [scanText, other, named]
  · have unit : hexUnit? '0' '0' (hexDigit (c.toNat / 16)) (hexDigit (c.toNat % 16))
        = some c.toNat := by
      simp only [hexUnit?, show hexValue? '0' = some 0 from rfl,
        hexValue?_hexDigit (show c.toNat / 16 < 16 by omega),
        hexValue?_hexDigit (show c.toNat % 16 < 16 by omega), Option.some.injEq]
      omega
    refine ⟨_, .control small, ?_⟩
    simp only [text, List.cons_append, List.nil_append, scanText, unit]
  · refine ⟨_, .char, ?_⟩
    rw [text, List.cons_append, List.nil_append]
    simp [scanText, backslash, large]

/-- A unit that stands for a character is decoded as that character. -/
theorem decodeUnits_cons {c : Char} {unit : Unit16} (names : Names c unit) (units : List Unit16)
    : decodeUnits (unit :: units) = (decodeUnits units).map (c :: ·) := by
  cases names with
  | char => rfl
  | control small =>
      -- A control is no half of a surrogate pair, so the next unit does not matter.
      have high : ¬ 0xd800 ≤ c.toNat := by omega
      have low : ¬ 0xdc00 ≤ c.toNat := by omega
      rcases units with _ | ⟨_ | _, _⟩ <;> simp [decodeUnits, high, low]

/-- Escaped characters are read back up to the closing quote, by induction on the characters. -/
theorem scanText_flatMap (chars : List Char) (read : List Unit16) (rest : List Char)
    : ∃ units,
        scanText read (chars.flatMap escapeChar ++ '"' :: rest)
          = some (read.reverse ++ units, rest)
        ∧ decodeUnits units = some chars := by
  induction chars generalizing read with
  | nil => exact ⟨[], by simp [scanText], rfl⟩
  | cons c chars ih =>
      obtain ⟨unit, names, first⟩ :=
        scanText_escapeChar read c (chars.flatMap escapeChar ++ '"' :: rest)
      obtain ⟨units, scanned, decoded⟩ := ih (unit :: read)
      refine ⟨unit :: units, ?_, ?_⟩
      · rw [List.flatMap_cons, List.append_assoc, first, scanned]
        simp
      · rw [decodeUnits_cons names, decoded, Option.map_some]

/-- A text in quotes is read back, whatever its characters. -/
theorem scan_quote (content : String) (rest : List Char)
    : scan ((quote content).toList ++ rest) = some (.text (some content), rest) := by
  obtain ⟨units, scanned, decoded⟩ := scanText_flatMap content.toList [] rest
  have text : (quote content).toList ++ rest
      = '"' :: (content.toList.flatMap escapeChar ++ '"' :: rest) := by
    simp [quote]
  rw [text]
  simp only [scan, show ofMark? '"' = none from rfl, if_true, scanned, Option.map_some,
    List.reverse_nil, List.nil_append, decoded, String.ofList_toList]

-----------------------------------------------------------------------------------------
-- Texts that spell tokens
-----------------------------------------------------------------------------------------

theorem Ends.append {first second : List Char} (ends : Ends first) (later : Ends second)
    : Ends (first ++ second) := by
  cases first with
  | nil => exact later
  | cons c rest => exact ends

/-- (Spells text tokens) means that a text is read as these tokens, whatever follows that does not
go on with a numeral and whatever was read before.
-/
def Spells (text : List Char) (tokens : List Token) : Prop :=
  ∀ rest,
    Ends rest
    → ∀ steps read,
        (text ++ rest).length ≤ steps
        → ∃ left,
            rest.length ≤ left
            ∧ scanAll steps read (text ++ rest) = scanAll left (tokens.reverse ++ read) rest

theorem spells_nil : Spells [] [] :=
  fun _ _ steps _ enough => ⟨steps, enough, rfl⟩

theorem Spells.append {first second : List Char} {tokens more : List Token}
    (spells : Spells first tokens) (later : Spells second more) (ends : Ends second)
    : Spells (first ++ second) (tokens ++ more) := by
  intro rest restEnds steps read enough
  rw [List.append_assoc] at enough ⊢
  -- If the second text is empty, what follows it comes right behind the first.
  obtain ⟨left, leftEnough, same⟩ := spells _ (ends.append restEnds) steps read enough
  obtain ⟨last, lastEnough, sameLast⟩ := later rest restEnds left _ leftEnough
  refine ⟨last, lastEnough, ?_⟩
  rw [same, sameLast, List.reverse_append, List.append_assoc]

/-- A token that is read from a text in front of anything is what the text spells. -/
theorem spells_of_scan {c : Char} {text : List Char} {token : Token} (visible : isBlank c = false)
    (scanned : ∀ rest, Ends rest → scan (c :: text ++ rest) = some (token, rest))
    : Spells (c :: text) [token] := by
  intro rest ends steps read enough
  cases steps with
  | zero => simp at enough
  | succ steps =>
      simp only [List.cons_append, List.length_cons, List.length_append] at enough
      have first := scanned rest ends
      simp only [List.cons_append] at first ⊢
      refine ⟨steps, by omega, ?_⟩
      simp only [scanAll, visible, Bool.false_eq_true, if_false, first, List.reverse_singleton,
        List.singleton_append]

theorem mark_cases {c : Char} {token : Token} (mark : ofMark? c = some token)
    : c = '\x7b' ∨ c = '\x7d' ∨ c = '[' ∨ c = ']' ∨ c = ',' ∨ c = ':' := by
  unfold ofMark? at mark
  grind

theorem visible_of_mark {c : Char} {token : Token} (mark : ofMark? c = some token)
    : isBlank c = false := by
  rcases mark_cases mark with rfl | rfl | rfl | rfl | rfl | rfl <;> rfl

/-- A mark goes on with no numeral. -/
theorem ends_of_mark {c : Char} {token : Token} (mark : ofMark? c = some token) (rest : List Char)
    : Ends (c :: rest) := by
  intro first head
  cases head
  rcases mark_cases mark with rfl | rfl | rfl | rfl | rfl | rfl <;>
    exact ⟨rfl, by decide, by decide, by decide⟩

/-- A mark may stand in front of anything. -/
theorem Spells.cons {c : Char} {token : Token} (mark : ofMark? c = some token) {text : List Char}
    {tokens : List Token} (spells : Spells text tokens)
    : Spells (c :: text) (token :: tokens) := by
  intro rest ends steps read enough
  cases steps with
  | zero => simp at enough
  | succ steps =>
      obtain ⟨left, leftEnough, same⟩ :=
        spells rest ends steps (token :: read) (by simpa using enough)
      refine ⟨left, leftEnough, ?_⟩
      simp only [List.cons_append, scanAll, visible_of_mark mark, Bool.false_eq_true, if_false,
        scan, mark, same, List.reverse_cons, List.append_assoc, List.nil_append]

/-- A mark may stand between any two texts. -/
theorem Spells.marked {first second : List Char} {tokens more : List Token}
    (spells : Spells first tokens) {c : Char} {token : Token} (mark : ofMark? c = some token)
    (later : Spells second more)
    : Spells (first ++ c :: second) (tokens ++ token :: more) :=
  spells.append (later.cons mark) (ends_of_mark mark second)

theorem spells_numeral {number : Numeral} (wellFormed : number.WellFormed)
    : Spells (numeralText number).toList [.numeral number] := by
  have scanned := fun rest (ends : Ends rest) => scan_numeralText wellFormed ends
  have visible : ∀ digit < 10, isBlank (digitChar digit) = false := by decide
  obtain ⟨first, more, whole⟩ := List.exists_cons_of_ne_nil wellFormed.whole.some
  have below := wellFormed.whole.below first (whole ▸ List.mem_cons_self)
  rw [toList_numeralText, whole] at scanned ⊢
  cases sign : number.negative with
  | true =>
      rw [sign] at scanned
      exact spells_of_scan rfl scanned
  | false =>
      rw [sign] at scanned
      exact spells_of_scan (visible first below) scanned

theorem spells_quote (content : String)
    : Spells (quote content).toList [.text (some content)] := by
  have text : (quote content).toList = '"' :: (content.toList.flatMap escapeChar ++ ['"']) := by
    simp [quote]
  have scanned := scan_quote content
  rw [text] at scanned ⊢
  exact spells_of_scan rfl fun rest _ => scanned rest

/-- A text that spells tokens has these tokens. -/
theorem Spells.ofText? {text : String} {tokens : List Token} (spells : Spells text.toList tokens)
    : ofText? text = some tokens := by
  obtain ⟨left, _, same⟩ := spells [] nofun text.toList.length [] (by simp)
  rw [List.append_nil, List.append_nil] at same
  rw [Token.ofText?, same, scanAll, List.reverse_reverse]

end Token

open Token

-----------------------------------------------------------------------------------------
-- The tokens of a value
-----------------------------------------------------------------------------------------

mutual

/-- The tokens of a value. -/
def tokens : Json → List Token
  | .null => [.null]
  | .bool truth => [.bool truth]
  | .numeral number => [.numeral number]
  | .text content => [.text content]
  | .array items => .openBracket :: (itemTokens items ++ [.closeBracket])
  | .object fields => .openBrace :: (fieldTokens fields ++ [.closeBrace])

/-- The tokens of the items of an array. -/
def itemTokens : List Json → List Token
  | [] => []
  | [item] => item.tokens
  | item :: rest => item.tokens ++ .comma :: itemTokens rest

/-- The tokens of the fields of an object. -/
def fieldTokens : List (Option String × Json) → List Token
  | [] => []
  | [(key, value)] => .text key :: .colon :: value.tokens
  | (key, value) :: rest => .text key :: .colon :: (value.tokens ++ .comma :: fieldTokens rest)

end

/-- The values whose texts can be read: their numerals are well formed and no text in them holds
half of a surrogate pair.
-/
inductive Legible : Json → Prop
  | null : Legible .null
  | bool (truth : Bool) : Legible (.bool truth)
  | numeral {number : Numeral} (wellFormed : number.WellFormed) : Legible (.numeral number)
  | text (content : String) : Legible (.text (some content))
  | array {items : List Json} (each : ∀ item ∈ items, Legible item) : Legible (.array items)
  | object {fields : List (Option String × Json)} (keys : ∀ field ∈ fields, field.1.isSome)
    (each : ∀ field ∈ fields, Legible field.2)
    : Legible (.object fields)

theorem spells_items {items : List Json}
    (each : ∀ item ∈ items, Spells item.compact.toList item.tokens)
    : Spells (compactItems items).toList (itemTokens items) := by
  induction items with
  | nil => exact spells_nil
  | cons item rest ih =>
      obtain ⟨first, others⟩ := List.forall_mem_cons.mp each
      cases rest with
      | nil => exact first
      | cons second rest =>
          have both := first.marked (c := ',') rfl (ih others)
          simpa [compactItems, itemTokens] using both

theorem spells_fields {fields : List (Option String × Json)}
    (keys : ∀ field ∈ fields, field.1.isSome)
    (each : ∀ field ∈ fields, Spells field.2.compact.toList field.2.tokens)
    : Spells (compactFields fields).toList (fieldTokens fields) := by
  induction fields with
  | nil => exact spells_nil
  | cons field rest ih =>
      obtain ⟨first, others⟩ := List.forall_mem_cons.mp each
      obtain ⟨firstKey, otherKeys⟩ := List.forall_mem_cons.mp keys
      obtain ⟨_ | key, value⟩ := field
      · cases firstKey
      have entry := (spells_quote key).marked (c := ':') rfl first
      cases rest with
      | nil => simpa [compactFields, fieldTokens, textText] using entry
      | cons second rest =>
          have both := entry.marked (c := ',') rfl (ih otherKeys others)
          simpa [compactFields, fieldTokens, textText] using both

/-- The text of a value spells its tokens. -/
theorem Legible.spells {value : Json} (legible : value.Legible)
    : Spells value.compact.toList value.tokens := by
  induction legible with
  | null => exact spells_of_scan rfl fun _ _ => rfl
  | bool truth =>
      cases truth with
      | false => exact spells_of_scan rfl fun _ _ => rfl
      | true => exact spells_of_scan rfl fun _ _ => rfl
  | numeral wellFormed => exact spells_numeral wellFormed
  | text content => exact spells_quote content
  | array _ ih =>
      have items := ((spells_items ih).marked (c := ']') rfl spells_nil).cons (c := '[') rfl
      simpa [compact, tokens] using items
  | object keys _ ih =>
      have fields :=
        ((spells_fields keys ih).marked (c := '\x7d') rfl spells_nil).cons (c := '\x7b') rfl
      simpa [compact, tokens] using fields

-----------------------------------------------------------------------------------------
-- Reading the tokens of a value
-----------------------------------------------------------------------------------------

/-- (Reads value) means that the tokens of a value are read as the value, whatever encloses it and
whatever follows.
-/
def Reads (value : Json) : Prop :=
  ∀ frames rest,
    readTokens .value frames (value.tokens ++ rest) = readTokens (.done value) frames rest

/-- The first item of an array does not start with the end of the array. -/
theorem readTokens_item (item : Json) (others : List Json) (frames : List Frame)
    (rest : List Token)
    : readTokens .item (.array [] :: frames) (itemTokens (item :: others) ++ rest)
      = readTokens .value (.array [] :: frames) (itemTokens (item :: others) ++ rest) := by
  cases others <;> cases item <;> simp [itemTokens, tokens, readTokens, step]

/-- The first field of an object starts with its key. -/
theorem readTokens_firstKey (field : Option String × Json) (others : List (Option String × Json))
    (frames : List Frame) (rest : List Token)
    : readTokens .firstKey (.object [] :: frames) (fieldTokens (field :: others) ++ rest)
      = readTokens .key (.object [] :: frames) (fieldTokens (field :: others) ++ rest) := by
  cases others <;> simp [fieldTokens, readTokens, step]

theorem reads_items {items : List Json} (some : items ≠ []) (each : ∀ item ∈ items, Reads item)
    (read : List Json) (frames : List Frame) (rest : List Token)
    : readTokens .value (.array read :: frames) (itemTokens items ++ .closeBracket :: rest)
      = readTokens (.done (.array (read.reverse ++ items))) frames rest := by
  induction items generalizing read with
  | nil => cases some rfl
  | cons item others ih =>
      obtain ⟨first, later⟩ := List.forall_mem_cons.mp each
      cases others with
      | nil =>
          rw [itemTokens, first]
          simp [readTokens, step, closeValue]
      | cons second others =>
          simp only [itemTokens, List.append_assoc, List.cons_append]
          rw [first]
          -- The comma puts the item with those read before.
          change readTokens .value (.array (item :: read) :: frames) _ = _
          rw [ih (List.cons_ne_nil _ _) later (item :: read), List.reverse_cons, List.append_assoc]
          rfl

theorem reads_fields {fields : List (Option String × Json)} (some : fields ≠ [])
    (each : ∀ field ∈ fields, Reads field.2) (read : List (Option String × Json))
    (frames : List Frame) (rest : List Token)
    : readTokens .key (.object read :: frames) (fieldTokens fields ++ .closeBrace :: rest)
      = readTokens (.done (.object (read.reverse ++ fields))) frames rest := by
  induction fields generalizing read with
  | nil => cases some rfl
  | cons field others ih =>
      obtain ⟨first, later⟩ := List.forall_mem_cons.mp each
      obtain ⟨key, value⟩ := field
      cases others with
      | nil =>
          simp only [fieldTokens, List.cons_append]
          change readTokens .value (.field read key :: frames) _ = _
          rw [first]
          simp [readTokens, step, closeValue]
      | cons second others =>
          simp only [fieldTokens, List.append_assoc, List.cons_append]
          change readTokens .value (.field read key :: frames) _ = _
          rw [first]
          change readTokens .key (.object ((key, value) :: read) :: frames) _ = _
          rw [ih (List.cons_ne_nil _ _) later ((key, value) :: read), List.reverse_cons,
            List.append_assoc]
          rfl

/-- The tokens of a value are read as the value. -/
theorem Legible.reads {value : Json} (legible : value.Legible) : Reads value := by
  induction legible with
  | null => exact fun _ _ => rfl
  | bool _ => exact fun _ _ => rfl
  | numeral _ => exact fun _ _ => rfl
  | text _ => exact fun _ _ => rfl
  | @array items _ ih =>
      intro frames rest
      rw [tokens, List.cons_append, List.append_assoc]
      change readTokens .item (.array [] :: frames) _ = _
      cases items with
      | nil => rfl
      | cons item others =>
          rw [readTokens_item]
          exact reads_items (List.cons_ne_nil _ _) ih [] frames rest
  | @object fields _ _ ih =>
      intro frames rest
      rw [tokens, List.cons_append, List.append_assoc]
      change readTokens .firstKey (.object [] :: frames) _ = _
      cases fields with
      | nil => rfl
      | cons field others =>
          rw [readTokens_firstKey]
          exact reads_fields (List.cons_ne_nil _ _) ih [] frames rest

/-- A legible value is read back from its text. -/
theorem Legible.parse?_compact {value : Json} (legible : value.Legible)
    : parse? value.compact = some value := by
  have reads := legible.reads [] []
  rw [List.append_nil] at reads
  rw [parse?, legible.spells.ofText?]
  exact reads

end StepPlan.Json
