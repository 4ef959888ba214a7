import Mathlib.Data.List.TakeDrop
import StepPlan.Json.Number
import StepPlan.Json.Token
import StepPlan.Json.Writer
import StepPlan.Proofs.Binary64.Shortest

/-! Numerals that are written are read back as they are. All numerals that come from natural
numbers and from doubles are well formed: there are digits before the point and behind it, and no
superfluous zero in front. The text of such a numeral is read back whatever follows it, as long as
that does not go on with the numeral.
-/

namespace StepPlan

open Json

-----------------------------------------------------------------------------------------
-- Digits
-----------------------------------------------------------------------------------------

namespace Json

/-- (Digits digits) means that there are digits and that each is below ten. -/
structure Digits (digits : List Nat) : Prop where
  some : digits ≠ []
  below : ∀ digit ∈ digits, digit < 10

/-- The digits of a number, by induction along their computation. -/
theorem digits_digitsOf (n : Nat) : Digits (digitsOf n) := by
  fun_induction digitsOf n with
  | case1 n small => exact ⟨List.cons_ne_nil _ _, by simpa using small⟩
  | case2 n _ ih =>
      refine ⟨by simp, List.forall_mem_append.mpr ⟨ih.below, ?_⟩⟩
      simpa using Nat.mod_lt n (by decide)

theorem Digits.head?_append {digits : List Nat} (written : Digits digits) (more : List Nat)
    : (digits ++ more).head? = digits.head? := by
  obtain ⟨first, rest, rfl⟩ := List.exists_cons_of_ne_nil written.some
  rfl

theorem Digits.append {digits more : List Nat} (written : Digits digits)
    (below : ∀ digit ∈ more, digit < 10)
    : Digits (digits ++ more) where
  some := List.append_ne_nil_of_left_ne_nil written.some _
  below := List.forall_mem_append.mpr ⟨written.below, below⟩

/-- A number other than zero does not start with a zero. -/
theorem head?_digitsOf_ne {n : Nat} (nonzero : n ≠ 0) : (digitsOf n).head? ≠ some 0 := by
  fun_induction digitsOf n with
  | case1 n small => simpa using nonzero
  | case2 n large ih =>
      rw [(digits_digitsOf _).head?_append]
      exact ih (by omega)

/-- The digits of a number write it, by induction along their computation. -/
theorem valueOf_digitsOf (n : Nat) : valueOf (digitsOf n) = n := by
  fun_induction digitsOf n with
  | case1 n small => simp [valueOf]
  | case2 n large ih =>
      unfold valueOf at ih ⊢
      rw [List.foldl_append, ih, List.foldl_cons, List.foldl_nil]
      omega

/-- The standard text of a number has the same digits, by induction along their computation. -/
theorem toList_toString (n : Nat) : (toString n).toList = (digitsOf n).map digitChar := by
  have digit : ∀ digit < 10, Nat.digitChar digit = digitChar digit := by decide
  rw [Nat.toString_eq_ofList_toDigits, String.toList_ofList]
  fun_induction digitsOf n with
  | case1 n small => rw [Nat.toDigits_of_lt_base small, digit n small, List.map_singleton]
  | case2 n large ih =>
      rw [Nat.toDigits_of_base_le (by decide) (Nat.le_of_not_lt large), ih, List.map_append,
        digit _ (Nat.mod_lt n (by decide)), List.map_singleton]

end Json

-----------------------------------------------------------------------------------------
-- Well-formed numerals
-----------------------------------------------------------------------------------------

namespace Numeral

/-- (number.WellFormed) means that a numeral has digits before the point, of which the first is no
superfluous zero, and that there are digits behind the point if there is one.
-/
structure WellFormed (number : Numeral) : Prop where
  whole : Digits number.whole
  leading : number.whole.head? = some 0 → number.whole = [0]
  fraction : ∀ digits ∈ number.fraction, Digits digits

theorem wellFormed_ofNat (n : Nat) : WellFormed ⟨false, digitsOf n, none, none⟩ := by
  refine ⟨digits_digitsOf n, fun zero => ?_, nofun⟩
  have none : n = 0 := Decidable.byContradiction fun nonzero => head?_digitsOf_ne nonzero zero
  rw [none, digitsOf]
  rfl

/-- Around the point a zero may only stand in front if it is the whole number. -/
theorem wellFormed_positional (negative : Bool) {digits : List Nat} (written : Digits digits)
    {point : Int} (leading : digits.head? = some 0 → digits = [0] ∧ point ≤ 1)
    : WellFormed (positional negative digits point) := by
  have zeros : ∀ count, ∀ digit ∈ List.replicate count 0, digit < 10 := by simp
  unfold positional
  split
  · refine ⟨⟨by simp, by simp⟩, fun _ => rfl, ?_⟩
    simp only [Option.mem_def, Option.some.injEq, forall_eq']
    exact ⟨by simp [written.some], List.forall_mem_append.mpr ⟨zeros _, written.below⟩⟩
  · rename_i positive
    have padded := written.append (zeros (point.toNat - digits.length))
    have place : point.toNat ≠ 0 := by omega
    refine ⟨⟨?_, fun digit member => padded.below _ (List.mem_of_mem_take member)⟩, ?_, ?_⟩
    · simp [List.take_eq_nil_iff, place, written.some]
    · intro zero
      dsimp only at zero ⊢
      rw [List.head?_take, if_neg place, written.head?_append] at zero
      obtain ⟨only, small⟩ := leading zero
      rw [only, show point = 1 by omega]
      rfl
    · simp only [Option.mem_def, Option.some.injEq, forall_eq']
      split
      · exact ⟨by simp, by simp⟩
      · rename_i more
        refine ⟨by simpa using more, fun digit member => ?_⟩
        exact padded.below _ (List.mem_of_mem_drop member)

theorem wellFormed_scientific (negative : Bool) {digits : List Nat} (written : Digits digits)
    (point : Int)
    : WellFormed (scientific negative digits point) := by
  obtain ⟨first, rest, rfl⟩ := List.exists_cons_of_ne_nil written.some
  refine ⟨⟨by simp [scientific], ?_⟩, ?_, ?_⟩
  · simpa [scientific] using written.below first List.mem_cons_self
  · simp [scientific]
  · intro digits fraction
    simp only [scientific, List.drop_succ_cons, List.drop_zero, Option.mem_def] at fraction
    split at fraction
    · cases fraction
    · rename_i more
      cases fraction
      refine ⟨by simpa using more, fun digit member => ?_⟩
      exact written.below _ (List.mem_cons_of_mem _ member)

/-- The numeral of a double is well formed. Only zeros have a zero in front, and they are written
as `0.0`.
-/
theorem wellFormed_ofBinary64 (x : Binary64) : (ofBinary64 x).WellFormed := by
  have written := digits_digitsOf x.shortest.digits
  unfold ofBinary64
  dsimp only
  split
  · refine wellFormed_positional x.isNegative written fun zero => ?_
    have none : x.shortest.digits = 0 :=
      Decidable.byContradiction fun nonzero => head?_digitsOf_ne nonzero zero
    -- Only zero has no digit above zero, and its power is zero.
    have exact : x.shortest = ⟨0, 0⟩ := by
      unfold Binary64.shortest
      refine if_pos (Decidable.byContradiction fun nonzero => ?_)
      exact (Binary64.digits_shortest_pos nonzero).ne' none
    rw [exact, digitsOf]
    exact ⟨rfl, le_rfl⟩
  · exact wellFormed_scientific _ written _

end Numeral

-----------------------------------------------------------------------------------------
-- Reading numerals
-----------------------------------------------------------------------------------------

namespace Json.Token

/-- (Ends rest) means that nothing goes on with a numeral in front of the rest. -/
def Ends (rest : List Char) : Prop :=
  ∀ c ∈ rest.head?, c.isDigit = false ∧ c ≠ '.' ∧ c ≠ 'e' ∧ c ≠ 'E'

theorem isDigit_digitChar {digit : Nat} (below : digit < 10)
    : (digitChar digit).isDigit = true ∧ (digitChar digit).toNat - '0'.toNat = digit := by
  revert digit
  decide

theorem scanDigits_append {digits : List Nat} (below : ∀ digit ∈ digits, digit < 10)
    {rest : List Char} (ends : ∀ c ∈ rest.head?, c.isDigit = false)
    : scanDigits (digits.map digitChar ++ rest) = (digits, rest) := by
  have each : ∀ c ∈ digits.map digitChar, c.isDigit = true := by
    simp only [List.mem_map, forall_exists_index, and_imp, forall_apply_eq_imp_iff₂]
    exact fun digit member => (isDigit_digitChar (below digit member)).1
  have back : (digits.map digitChar).map (fun c => c.toNat - '0'.toNat) = digits := by
    rw [List.map_map]
    conv_rhs => rw [← List.map_id digits]
    exact List.map_congr_left fun digit member => (isDigit_digitChar (below digit member)).2
  have stop : rest.takeWhile Char.isDigit = [] ∧ rest.dropWhile Char.isDigit = rest := by
    cases rest with
    | nil => exact ⟨rfl, rfl⟩
    | cons c rest => simp [ends c rfl]
  unfold scanDigits
  rw [List.span_eq_takeWhile_dropWhile, List.takeWhile_append_of_pos each,
    List.dropWhile_append_of_pos each, stop.1, stop.2, List.append_nil]
  simp only [back]

/-- The digits behind the point, and the point. -/
def fractionChars : Option (List Nat) → List Char
  | some digits => '.' :: digits.map digitChar
  | none => []

/-- The power of ten, and its mark. -/
def exponentChars : Option Int → List Char
  | some exponent =>
      'e' :: (if exponent < 0 then '-' else '+') :: (digitsOf exponent.natAbs).map digitChar
  | none => []

theorem toList_exponentText (exponent : Int)
    : (exponentText exponent).toList = exponentChars (some exponent) := by
  unfold exponentText exponentChars
  rw [String.toList_append, String.toList_append, toList_toString]
  by_cases negative : exponent < 0 <;> simp [negative]

theorem toList_numeralText (number : Numeral)
    : (numeralText number).toList
      = (if number.negative then ['-'] else [])
        ++ (number.whole.map digitChar
          ++ (fractionChars number.fraction ++ exponentChars number.exponent)) := by
  obtain ⟨negative, whole, fraction, exponent⟩ := number
  cases negative <;> cases fraction <;> cases exponent <;>
    simp [numeralText, digitText, toList_exponentText, fractionChars, exponentChars]

/-- Nothing behind the digits goes on with them. -/
theorem not_isDigit_exponentChars (exponent : Option Int) {rest : List Char} (ends : Ends rest)
    : ∀ c ∈ (exponentChars exponent ++ rest).head?, c.isDigit = false ∧ c ≠ '.' := by
  cases exponent with
  | some exponent =>
      intro c head
      cases head
      exact ⟨rfl, by decide⟩
  | none => exact fun c head => ⟨(ends c head).1, (ends c head).2.1⟩

theorem not_isDigit_fractionChars (fraction : Option (List Nat)) (exponent : Option Int)
    {rest : List Char} (ends : Ends rest)
    : ∀ c ∈ (fractionChars fraction ++ (exponentChars exponent ++ rest)).head?,
        c.isDigit = false := by
  cases fraction with
  | some digits =>
      intro c head
      cases head
      rfl
  | none => exact fun c head => (not_isDigit_exponentChars exponent ends c head).1

theorem scanPower_chars (exponent : Int) {rest : List Char} (ends : Ends rest)
    : scanPower
        ((if exponent < 0 then '-' else '+')
          :: ((digitsOf exponent.natAbs).map digitChar ++ rest))
      = some (some exponent, rest) := by
  have written := digits_digitsOf exponent.natAbs
  have value := valueOf_digitsOf exponent.natAbs
  generalize digitsOf exponent.natAbs = digits at *
  have scanned := scanDigits_append written.below fun c head => (ends c head).1
  obtain ⟨first, more, rfl⟩ := List.exists_cons_of_ne_nil written.some
  unfold scanPower
  by_cases negative : exponent < 0
  · simp only [if_pos negative, scanSign, scanned, value]
    simp only [if_true, Option.some.injEq, Prod.mk.injEq, and_true]
    omega
  · simp only [if_neg negative, scanSign, scanned, value]
    simp only [Bool.false_eq_true, if_false, Option.some.injEq, Prod.mk.injEq, and_true]
    omega

theorem scanExponent_chars (exponent : Option Int) {rest : List Char} (ends : Ends rest)
    : scanExponent (exponentChars exponent ++ rest) = some (exponent, rest) := by
  cases exponent with
  | some exponent => exact scanPower_chars exponent ends
  | none =>
      unfold exponentChars scanExponent
      rw [List.nil_append]
      split
      · exact absurd rfl (ends 'e' rfl).2.2.1
      · exact absurd rfl (ends 'E' rfl).2.2.2
      · rfl

theorem scanFraction_chars {fraction : Option (List Nat)}
    (written : ∀ digits ∈ fraction, Digits digits) {rest : List Char}
    (ends : ∀ c ∈ rest.head?, c.isDigit = false ∧ c ≠ '.')
    : scanFraction (fractionChars fraction ++ rest) = some (fraction, rest) := by
  cases fraction with
  | some digits =>
      have scanned := scanDigits_append (written digits rfl).below fun c head => (ends c head).1
      obtain ⟨first, more, rfl⟩ := List.exists_cons_of_ne_nil (written digits rfl).some
      simp only [fractionChars, List.cons_append, scanFraction, scanned]
  | none =>
      unfold fractionChars scanFraction
      rw [List.nil_append]
      split
      · exact absurd rfl (ends '.' rfl).2
      · rfl

/-- The parts of a numeral are read one after the other. -/
theorem scanMagnitude_chars {number : Numeral} (wellFormed : number.WellFormed) {rest : List Char}
    (ends : Ends rest)
    : scanMagnitude number.negative
        (number.whole.map digitChar
          ++ (fractionChars number.fraction ++ (exponentChars number.exponent ++ rest)))
      = some (number, rest) := by
  have whole : scanWhole (number.whole.map digitChar
        ++ (fractionChars number.fraction ++ (exponentChars number.exponent ++ rest)))
      = some (number.whole, fractionChars number.fraction
          ++ (exponentChars number.exponent ++ rest)) := by
    unfold scanWhole
    rw [scanDigits_append wellFormed.whole.below
      (not_isDigit_fractionChars number.fraction number.exponent ends)]
    split
    · rename_i none
      exact absurd (congrArg Prod.fst none) wellFormed.whole.some
    · -- A zero in front would be the whole number.
      rename_i zero
      have digits := congrArg Prod.fst zero
      dsimp only at digits
      simpa [digits] using wellFormed.leading
    · rename_i same
      rw [same]
  simp only [scanMagnitude, whole, scanFraction_chars wellFormed.fraction
    (not_isDigit_exponentChars number.exponent ends), scanExponent_chars number.exponent ends]

/-- A digit starts no other token. -/
theorem scan_of_isDigit {c : Char} (digit : c.isDigit = true) (rest : List Char)
    : scan (c :: rest)
      = (scanMagnitude false (c :: rest)).map fun read => (.numeral read.1, read.2) := by
  have other : ∀ other, other.isDigit = false → c ≠ other := by
    intro other none same
    rw [← same, digit] at none
    cases none
  have mark : ofMark? c = none := by
    simp [ofMark?, other '\x7b' rfl, other '\x7d' rfl, other '[' rfl, other ']' rfl, other ',' rfl,
      other ':' rfl]
  simp only [scan, mark, if_neg (other '"' rfl)]
  unfold scanScalar
  split <;> rename_i same
  · exact absurd (List.cons.inj same).1 (other 't' rfl)
  · exact absurd (List.cons.inj same).1 (other 'f' rfl)
  · exact absurd (List.cons.inj same).1 (other 'n' rfl)
  · exact absurd (List.cons.inj same).1 (other '-' rfl)
  · rfl

/-- A well-formed numeral is read back, whatever follows that does not go on with it. -/
theorem scan_numeralText {number : Numeral} (wellFormed : number.WellFormed) {rest : List Char}
    (ends : Ends rest)
    : scan ((numeralText number).toList ++ rest) = some (.numeral number, rest) := by
  have magnitude := scanMagnitude_chars wellFormed ends
  simp only [toList_numeralText, List.append_assoc]
  cases negative : number.negative with
  | true =>
      rw [negative] at magnitude
      simp only [if_true, List.cons_append, List.nil_append]
      change (scanMagnitude true _).map _ = _
      rw [magnitude, Option.map_some]
  | false =>
      rw [negative] at magnitude
      obtain ⟨first, more, whole⟩ := List.exists_cons_of_ne_nil wellFormed.whole.some
      have below := wellFormed.whole.below first (whole ▸ List.mem_cons_self)
      simp only [Bool.false_eq_true, if_false, List.nil_append]
      rw [whole, List.map_cons, List.cons_append] at magnitude ⊢
      rw [scan_of_isDigit (isDigit_digitChar below).1, magnitude, Option.map_some]

end Json.Token

end StepPlan
