import Mathlib.Data.List.Nodup
import Mathlib.Logic.Relation
import StepPlan.Components
import StepPlan.Proofs.Reachability

/-! What a search for strongly connected components has to find, and that the depth-first search
finds it. The search enters and leaves every node, so each component is settled once, at the last of
its nodes that the search leaves.
-/

namespace StepPlan

open Relation

-----------------------------------------------------------------------------------------
-- Totals of a part
-----------------------------------------------------------------------------------------

theorem total_le_of_sublist {α : Type} (weight : α → Nat) {part items : List α}
    (sublist : part.Sublist items)
    : total weight part ≤ total weight items := by
  induction sublist with
  | slnil => exact Nat.le_refl _
  | cons item _ ih => exact Nat.le_trans ih (Nat.le_add_left _ _)
  | cons_cons item _ ih => exact Nat.add_le_add_left ih _

/-- Taking out an item lowers a total by at least its weight. -/
theorem total_filter_ne_le {α : Type} [DecidableEq α] (weight : α → Nat) {items : List α}
    {taken : α} (member : taken ∈ items)
    : weight taken + total weight (items.filter fun item => item ≠ taken)
      ≤ total weight items := by
  induction items with
  | nil => nomatch member
  | cons item rest ih =>
      by_cases same : item = taken
      · subst same
        rw [List.filter_cons_of_neg (by simp), total]
        exact Nat.add_le_add_left (total_le_of_sublist weight List.filter_sublist) _
      · have later := ih ((List.mem_cons.mp member).resolve_left (Ne.symm same))
        rw [List.filter_cons_of_pos (by simp [same]), total, total]
        omega

namespace ComponentSearch

-----------------------------------------------------------------------------------------
-- Strongly connected components
-----------------------------------------------------------------------------------------

/-- One node leads to another. -/
def Leads (next : Nat → List Nat) (node other : Nat) : Prop :=
  other ∈ next node

/-- (Components nodes next found) means that lists of nodes are the strongly connected components of
a graph: every node is in one of them and listed once, and together with a node are exactly those
that it reaches and that reach it.
-/
structure Components (nodes : List Nat) (next : Nat → List Nat) (found : List (List Nat))
    : Prop where
  once : found.flatten.Nodup
  mem_flatten_iff : ∀ node, node ∈ found.flatten ↔ node ∈ nodes
  inhabited : ∀ component ∈ found, component ≠ []
  mem_iff
    : ∀ component ∈ found,
        ∀ node ∈ component,
          ∀ other,
            other ∈ component
            ↔ ReflTransGen (Leads next) node other ∧ ReflTransGen (Leads next) other node

/-- (Exact search) means that a search finds the components of every graph. -/
def Exact (search : ComponentSearch) : Prop :=
  ∀ (nodes : List Nat) (next : Nat → List Nat),
    nodes.Nodup
    → (∀ node ∈ nodes, ∀ other ∈ next node, other ∈ nodes)
    → Components nodes next (search nodes next)

namespace Components

variable {nodes : List Nat} {next : Nat → List Nat} {found : List (List Nat)}
  {component : List Nat}

/-- Members of a component with a cycle reach one another over at least one edge, and so does each
of them reach itself.
-/
theorem mem_iff_of_cycle (components : Components nodes next found) (member : component ∈ found)
    {node : Nat} (inside : node ∈ component) (around : TransGen (Leads next) node node)
    (other : Nat)
    : other ∈ component
      ↔ TransGen (Leads next) node other ∧ TransGen (Leads next) other node := by
  rw [components.mem_iff component member node inside]
  constructor
  · intro together
    obtain ⟨forth, back⟩ := together
    exact ⟨around.trans_left forth, TransGen.trans_right back around⟩
  · intro together
    exact ⟨together.1.to_reflTransGen, together.2.to_reflTransGen⟩

/-- A component holds a cycle exactly if one of its nodes reaches itself, and then all do. A single
node that reaches itself leads to itself at once, because the next node on the way would be in its
component.
-/
theorem holdsCycle_iff (components : Components nodes next found) (member : component ∈ found)
    {node : Nat} (inside : node ∈ component)
    : holdsCycle next component = true ↔ TransGen (Leads next) node node := by
  have distinct := (List.nodup_flatten.mp components.once).1 component member
  rw [holdsCycle, Bool.or_eq_true, decide_eq_true_eq]
  constructor
  · intro holds
    rcases holds with several | own
    · have remaining : component.erase node ≠ [] := by
        rw [← List.length_pos_iff, List.length_erase_of_mem inside]
        omega
      obtain ⟨other, left⟩ := List.exists_mem_of_ne_nil _ remaining
      obtain ⟨different, otherInside⟩ := distinct.mem_erase_iff.mp left
      obtain ⟨forth, back⟩ := (components.mem_iff component member node inside other).mp otherInside
      have onward := (reflTransGen_iff_eq_or_transGen.mp forth).resolve_left different
      exact onward.trans_left back
    · obtain ⟨first, head, loop⟩ := (Option.any_eq_true _ _).mp own
      have firstInside := List.mem_of_head? head
      obtain ⟨forth, back⟩ := (components.mem_iff component member node inside first).mp firstInside
      have around : TransGen (Leads next) first first := .single (List.contains_iff_mem.mp loop)
      exact (TransGen.trans_right forth around).trans_left back
  · intro around
    rw [or_iff_not_imp_left]
    intro few
    obtain ⟨only, rfl⟩ := List.length_eq_one_iff.mp
      (Nat.le_antisymm (Nat.not_lt.mp few) (List.length_pos_of_mem inside))
    cases List.mem_singleton.mp inside
    obtain ⟨second, step, back⟩ := TransGen.head'_iff.mp around
    have together := (components.mem_iff _ member node inside second).mpr ⟨.single step, back⟩
    cases List.mem_singleton.mp together
    exact List.contains_iff_mem.mpr step

end Components

-----------------------------------------------------------------------------------------
-- Depth-first search
-----------------------------------------------------------------------------------------

/-- The edges that a search among nodes can still follow. -/
def unfollowed (next : Nat → List Nat) (nodes : List Nat) (seen : Visit) : Nat :=
  total (fun node => (next node).length) (nodes.filter fun node => node ∉ seen.entered)

theorem unfollowed_mono (next : Nat → List Nat) (nodes : List Nat) {seen after : Visit}
    (kept : ∀ node ∈ seen.entered, node ∈ after.entered)
    : unfollowed next nodes after ≤ unfollowed next nodes seen := by
  apply total_le_of_sublist
  apply List.monotone_filter_right
  intro node fresh
  rw [decide_eq_true_eq] at fresh ⊢
  exact mt (kept node) fresh

/-- Entering a node leaves its edges to be followed from there. -/
theorem unfollowed_enter (next : Nat → List Nat) {nodes : List Nat} {seen : Visit} {node : Nat}
    (member : node ∈ nodes) (fresh : node ∉ seen.entered)
    : (next node).length + unfollowed next nodes { seen with entered := node :: seen.entered }
      ≤ unfollowed next nodes seen := by
  have parts : (nodes.filter fun other => other ∉ node :: seen.entered)
      = (nodes.filter fun other => other ∉ seen.entered).filter fun other => other ≠ node := by
    rw [List.filter_filter]
    apply List.filter_congr
    intro other _
    simp
  rw [unfollowed, parts]
  exact total_filter_ne_le (fun other => (next other).length)
    (List.mem_filter.mpr ⟨member, by simpa using fresh⟩)

/-- (Visited nodes pending seen after) means that a search among nodes has entered all pending ones,
that it has forgotten nothing, and that it has left whatever it has entered and nothing else.
-/
structure Visited (nodes pending : List Nat) (seen after : Visit) : Prop where
  pending : ∀ node ∈ pending, node ∈ after.entered
  entered : ∀ node ∈ seen.entered, node ∈ after.entered
  finished : ∀ node ∈ seen.finished, node ∈ after.finished
  left : ∀ node ∈ after.entered, node ∈ seen.entered ∨ node ∈ after.finished
  inside : ∀ node ∈ after.finished, node ∈ seen.finished ∨ node ∈ nodes

theorem visited_nil (nodes : List Nat) (seen : Visit) : Visited nodes [] seen seen :=
  ⟨nofun, fun _ => id, fun _ => id, fun _ => Or.inl, fun _ => Or.inl⟩

/-- A node that has been entered before is passed over. -/
theorem Visited.skip {nodes rest : List Nat} {seen after : Visit} {node : Nat}
    (visited : Visited nodes rest seen after) (old : node ∈ seen.entered)
    : Visited nodes (node :: rest) seen after where
  pending := List.forall_mem_cons.mpr ⟨visited.entered node old, visited.pending⟩
  entered := visited.entered
  finished := visited.finished
  left := visited.left
  inside := visited.inside

/-- A node is entered, its edges are followed, and it is left before the others are searched. -/
theorem Visited.enter {nodes below rest : List Nat} {seen inner after : Visit} {node : Nat}
    (member : node ∈ nodes)
    (first : Visited nodes below { seen with entered := node :: seen.entered } inner)
    (later : Visited nodes rest { inner with finished := inner.finished ++ [node] } after)
    : Visited nodes (node :: rest) seen after := by
  obtain ⟨here, before⟩ := List.forall_mem_cons.mp first.entered
  have done : ∀ other ∈ inner.finished, other ∈ after.finished :=
    fun other member => later.finished other (List.mem_append_left _ member)
  refine ⟨?_, ?_, ?_, ?_, ?_⟩
  · exact List.forall_mem_cons.mpr ⟨later.entered node here, later.pending⟩
  · exact fun other member => later.entered other (before other member)
  · exact fun other member => done other (first.finished other member)
  · intro other member
    rcases later.left other member with earlier | finished
    · rcases first.left other earlier with old | finished
      · rcases List.mem_cons.mp old with rfl | old
        · exact Or.inr (later.finished other (List.mem_append_right _ List.mem_cons_self))
        · exact Or.inl old
      · exact Or.inr (done other finished)
    · exact Or.inr finished
  · intro other finished
    rcases later.inside other finished with earlier | known
    · rcases List.mem_append.mp earlier with below | last
      · exact first.inside other below
      · exact Or.inr (List.mem_singleton.mp last ▸ member)
    · exact Or.inr known

/-- A search with enough steps visits all pending nodes. Steps are spent on pending nodes and on
edges that have not been followed, by induction on the steps.
-/
theorem visited_visit {next : Nat → List Nat} {nodes : List Nat}
    (closed : ∀ node ∈ nodes, ∀ other ∈ next node, other ∈ nodes) {steps : Nat}
    {pending : List Nat} {seen : Visit} (inside : ∀ node ∈ pending, node ∈ nodes)
    (enough : pending.length + unfollowed next nodes seen ≤ steps)
    : Visited nodes pending seen (visit next steps pending seen) := by
  induction steps generalizing pending seen with
  | zero =>
      have nothing : pending = [] := List.length_eq_zero_iff.mp (by omega)
      rw [nothing, visit]
      exact visited_nil nodes seen
  | succ steps ih =>
      cases pending with
      | nil => exact visited_nil nodes seen
      | cons node rest =>
          obtain ⟨member, others⟩ := List.forall_mem_cons.mp inside
          rw [List.length_cons] at enough
          rw [visit]
          split
          · rename_i old
            exact (ih others (by omega)).skip (List.contains_iff_mem.mp old)
          · rename_i new
            have fresh : node ∉ seen.entered := mt List.contains_iff_mem.mpr new
            have spent := unfollowed_enter next member fresh
            have first : Visited nodes (next node) { seen with entered := node :: seen.entered }
                (visit next steps (next node) { seen with entered := node :: seen.entered }) :=
              ih (closed node member) (by omega)
            generalize visit next steps (next node) _ = inner at first ⊢
            have less : unfollowed next nodes { inner with finished := inner.finished ++ [node] }
                ≤ unfollowed next nodes seen :=
              unfollowed_mono next nodes (List.forall_mem_cons.mp first.entered).2
            exact first.enter member (ih others (by omega))

/-- A search from all nodes leaves every one of them and no others. -/
theorem mem_postorder_iff {nodes : List Nat} {next : Nat → List Nat}
    (closed : ∀ node ∈ nodes, ∀ other ∈ next node, other ∈ nodes) {node : Nat}
    : node ∈ postorder nodes next ↔ node ∈ nodes := by
  have all : nodes.filter (fun node => node ∉ (⟨[], []⟩ : Visit).entered) = nodes := by simp
  have enough : nodes.length + unfollowed next nodes ⟨[], []⟩
      ≤ nodes.length + total (fun node => (next node).length) nodes + 1 := by
    rw [unfollowed, all]
    exact Nat.le_succ _
  have visited := visited_visit closed (fun _ => id) enough
  constructor
  · intro finished
    exact (visited.inside node finished).resolve_left List.not_mem_nil
  · intro member
    exact (visited.left node (visited.pending node member)).resolve_left List.not_mem_nil

-----------------------------------------------------------------------------------------
-- Settling components
-----------------------------------------------------------------------------------------

section Settling

variable {reached : Nat → List Nat}
  (transitive
    : ∀ first second third,
        second ∈ reached first → third ∈ reached second → third ∈ reached first)

include transitive

theorem mem_component_iff {node other : Nat}
    : other ∈ component reached node
      ↔ other = node ∨ (other ∈ reached node ∧ node ∈ reached other) := by
  unfold component
  split
  · rename_i around
    rw [List.contains_iff_mem] at around
    rw [List.mem_filter, List.contains_iff_mem, or_iff_right_of_imp]
    rintro rfl
    exact ⟨around, around⟩
  · rename_i straight
    rw [List.contains_iff_mem] at straight
    rw [List.mem_singleton, or_iff_left]
    intro together
    exact straight (transitive node other node together.1 together.2)

/-- Components that share a node share their nodes. -/
theorem mem_component_of_shared {node other shared : Nat}
    (one : shared ∈ component reached node) (two : shared ∈ component reached other)
    : other ∈ component reached node := by
  rw [mem_component_iff transitive] at one two ⊢
  rcases one with rfl | ⟨forth, back⟩
  · rcases two with rfl | ⟨onward, backward⟩
    · exact Or.inl rfl
    · exact Or.inr ⟨backward, onward⟩
  · rcases two with rfl | ⟨onward, backward⟩
    · exact Or.inr ⟨forth, back⟩
    · exact Or.inr
        ⟨transitive node shared other forth backward, transitive other shared node onward back⟩

/-- What is settled are components of the nodes listed. They have no nodes in common, because a
component has no node behind the one at which it is settled. Every node is in one of them: if its
component is not settled at the node, it is settled at another one of the same component. By
induction on the nodes.
-/
theorem settle_spec (nodes : List Nat)
    : (∀ members ∈ settle reached nodes, ∃ node ∈ nodes, members = component reached node)
      ∧ (settle reached nodes).Pairwise List.Disjoint
      ∧ ∀ node ∈ nodes, ∃ members ∈ settle reached nodes, node ∈ members := by
  induction nodes with
  | nil => exact ⟨by simp [settle], .nil, by simp⟩
  | cons node rest ih =>
      obtain ⟨settled, apart, covered⟩ := ih
      have own : node ∈ component reached node := (mem_component_iff transitive).mpr (Or.inl rfl)
      have later : ∀ members ∈ settle reached rest,
          ∃ other ∈ node :: rest, members = component reached other := by
        intro members member
        obtain ⟨other, listed, same⟩ := settled members member
        exact ⟨other, List.mem_cons_of_mem _ listed, same⟩
      rw [settle]
      by_cases last : ∀ other ∈ rest, other ∉ component reached node
      · rw [if_pos (by simpa using last)]
        refine ⟨List.forall_mem_cons.mpr ⟨⟨node, List.mem_cons_self, rfl⟩, later⟩, ?_, ?_⟩
        · refine List.pairwise_cons.mpr ⟨?_, apart⟩
          intro members member shared inside otherInside
          obtain ⟨other, listed, rfl⟩ := settled members member
          exact last other listed (mem_component_of_shared transitive inside otherInside)
        · refine List.forall_mem_cons.mpr ⟨⟨_, List.mem_cons_self, own⟩, ?_⟩
          intro other listed
          obtain ⟨members, member, inside⟩ := covered other listed
          exact ⟨members, List.mem_cons_of_mem _ member, inside⟩
      · rw [if_neg (by simpa using last)]
        refine ⟨later, apart, List.forall_mem_cons.mpr ⟨?_, covered⟩⟩
        simp only [not_forall, not_not] at last
        obtain ⟨other, listed, together⟩ := last
        obtain ⟨members, member, inside⟩ := covered other listed
        obtain ⟨first, _, rfl⟩ := settled members member
        exact ⟨_, member, mem_component_of_shared transitive inside together⟩

end Settling

-----------------------------------------------------------------------------------------
-- The search finds the components
-----------------------------------------------------------------------------------------

variable {nodes : List Nat} {next : Nat → List Nat}

/-- A path from a node stays among the nodes. -/
theorem path_inside (closed : ∀ node ∈ nodes, ∀ other ∈ next node, other ∈ nodes)
    {node other : Nat} (inside : node ∈ nodes) (path : ReflTransGen (Leads next) node other)
    : ReflTransGen (Reach.StepIn next nodes) node other ∧ other ∈ nodes := by
  induction path with
  | refl => exact ⟨.refl, inside⟩
  | tail _ step ih =>
      have there := closed _ ih.2 _ step
      exact ⟨ih.1.tail ⟨step, there⟩, there⟩

/-- What a node reaches over at least one edge, as it is looked up. -/
def reachedFrom (nodes : List Nat) (next : Nat → List Nat) (node : Nat) : List Nat :=
  ((reachTable nodes next).lookup node).getD []

theorem reachedFrom_of_mem {node : Nat} (member : node ∈ nodes)
    : reachedFrom nodes next node = Reach.gather next nodes (next node) := by
  have found := List.lookup_graph (fun node => Reach.gather next nodes (next node)) member
  exact congrArg (Option.getD · []) found

theorem reachedFrom_of_not_mem {node : Nat} (unknown : node ∉ nodes)
    : reachedFrom nodes next node = [] := by
  have missing : (reachTable nodes next).lookup node = none := by
    rw [List.lookup_eq_none_iff]
    intro entry listed
    obtain ⟨known, member, rfl⟩ := List.mem_map.mp listed
    exact bne_iff_ne.mpr fun same => unknown (same ▸ member)
  rw [reachedFrom, missing, Option.getD_none]

theorem mem_reachedFrom_iff (closed : ∀ node ∈ nodes, ∀ other ∈ next node, other ∈ nodes)
    {node other : Nat}
    : other ∈ reachedFrom nodes next node ↔ node ∈ nodes ∧ TransGen (Leads next) node other := by
  by_cases member : node ∈ nodes
  · rw [reachedFrom_of_mem member, Reach.mem_gather_iff, TransGen.head'_iff]
    constructor
    · intro found
      obtain ⟨start, edge, _, path⟩ := found
      exact ⟨member, start, edge, ReflTransGen.mono (fun _ _ step => step.1) _ _ path⟩
    · intro found
      obtain ⟨_, start, edge, path⟩ := found
      have inside := closed node member start edge
      exact ⟨start, edge, inside, (path_inside closed inside path).1⟩
  · simp [reachedFrom_of_not_mem member, member]

theorem reachedFrom_trans (closed : ∀ node ∈ nodes, ∀ other ∈ next node, other ∈ nodes)
    (first second third : Nat) (one : second ∈ reachedFrom nodes next first)
    (two : third ∈ reachedFrom nodes next second)
    : third ∈ reachedFrom nodes next first := by
  rw [mem_reachedFrom_iff closed] at one two ⊢
  exact ⟨one.1, one.2.trans two.2⟩

/-- A component lists its nodes once, as the search does. -/
theorem component_nodup (distinct : nodes.Nodup) (node : Nat)
    : (component (reachedFrom nodes next) node).Nodup := by
  unfold component
  split
  · refine List.Nodup.filter _ ?_
    by_cases member : node ∈ nodes
    · rw [reachedFrom_of_mem member]
      exact Reach.gather_nodup next distinct (next node)
    · rw [reachedFrom_of_not_mem member]
      exact List.nodup_nil
  · exact List.nodup_singleton node

/-- Together with a node are those that it reaches and that reach it, over any number of edges. -/
theorem mem_component_iff_leads
    (closed : ∀ node ∈ nodes, ∀ other ∈ next node, other ∈ nodes) {node : Nat}
    (member : node ∈ nodes) (other : Nat)
    : other ∈ component (reachedFrom nodes next) node
      ↔ ReflTransGen (Leads next) node other ∧ ReflTransGen (Leads next) other node := by
  rw [mem_component_iff (reachedFrom_trans closed), mem_reachedFrom_iff closed,
    mem_reachedFrom_iff closed, reflTransGen_iff_eq_or_transGen, reflTransGen_iff_eq_or_transGen]
  constructor
  · intro found
    rcases found with rfl | ⟨forth, back⟩
    · exact ⟨Or.inl rfl, Or.inl rfl⟩
    · exact ⟨Or.inr forth.2, Or.inr back.2⟩
  · intro found
    obtain ⟨rfl | forth, back⟩ := found
    · exact Or.inl rfl
    · have otherMember := (path_inside closed member forth.to_reflTransGen).2
      rcases back with rfl | back
      · exact Or.inl rfl
      · exact Or.inr ⟨⟨member, forth⟩, otherMember, back⟩

/-- The depth-first search finds the components of every graph. -/
theorem exact_depthFirst : Exact depthFirst := by
  intro nodes next distinct closed
  have together {node : Nat} (member : node ∈ nodes) (other : Nat) :=
    mem_component_iff_leads closed member other
  obtain ⟨settled, apart, covered⟩ := settle_spec (reachedFrom_trans closed) (postorder nodes next)
  have known : ∀ members ∈ depthFirst nodes next,
      ∃ node ∈ nodes, members = component (reachedFrom nodes next) node := by
    intro members member
    obtain ⟨node, listed, same⟩ := settled members member
    exact ⟨node, (mem_postorder_iff closed).mp listed, same⟩
  refine ⟨List.nodup_flatten.mpr ⟨?_, apart⟩, ?_, ?_, ?_⟩
  · intro members member
    obtain ⟨node, _, rfl⟩ := known members member
    exact component_nodup distinct node
  · intro node
    rw [List.mem_flatten]
    constructor
    · intro found
      obtain ⟨members, member, inside⟩ := found
      obtain ⟨first, firstMember, rfl⟩ := known members member
      exact (path_inside closed firstMember ((together firstMember node).mp inside).1).2
    · intro member
      exact covered node ((mem_postorder_iff closed).mpr member)
  · intro members member
    obtain ⟨node, nodeMember, rfl⟩ := known members member
    exact List.ne_nil_of_mem ((together nodeMember node).mpr ⟨.refl, .refl⟩)
  · intro members member node inside other
    obtain ⟨first, firstMember, rfl⟩ := known members member
    -- The node at which the component was settled is no better than any other of its nodes.
    obtain ⟨forth, back⟩ := (together firstMember node).mp inside
    rw [together firstMember other]
    constructor
    · intro found
      exact ⟨back.trans found.1, found.2.trans forth⟩
    · intro found
      exact ⟨forth.trans found.1, found.2.trans back⟩

end ComponentSearch

end StepPlan
