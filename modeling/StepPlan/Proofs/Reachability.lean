import Mathlib.Data.List.Nodup
import Mathlib.Data.List.TakeWhile
import Mathlib.Logic.Relation
import StepPlan.Reach

/-! Exactness of the finite search. What the search finds is stated with reflexive and
transitive closures: first for steps that stay in a shrinking domain, then for graphs whose
edges never leave the domain, where the domain drops out of the statement.
-/

namespace StepPlan.Reach

open Relation

/-- One node follows another and is still in the domain of the search. -/
def StepIn (next : Nat → List Nat) (domain : List Nat) (node other : Nat) : Prop :=
  other ∈ next node ∧ other ∈ domain

/-- The nodes that a search leads to: those on paths inside the domain from a pending node that
is inside the domain itself.
-/
def Found (next : Nat → List Nat) (domain pending : List Nat) (node : Nat) : Prop :=
  ∃ start ∈ pending, start ∈ domain ∧ ReflTransGen (StepIn next domain) start node

-----------------------------------------------------------------------------------------
-- Taking one node out of the domain
-----------------------------------------------------------------------------------------

/-- A path in the smaller domain is a path in the larger one, step by step. -/
theorem path_of_erase {next : Nat → List Nat} {domain : List Nat} {taken start node : Nat}
    (path : ReflTransGen (StepIn next (domain.erase taken)) start node)
    : ReflTransGen (StepIn next domain) start node :=
  ReflTransGen.mono (fun _ _ step => ⟨step.1, List.mem_of_mem_erase step.2⟩) _ _ path

/-- A path survives the removal of a node unless it passes that node. If it does, its part after
the last visit survives, which starts at a successor of the removed node. By induction on the
path from its front.
-/
theorem path_avoiding {next : Nat → List Nat} {domain : List Nat} (taken : Nat)
    {start node : Nat} (path : ReflTransGen (StepIn next domain) start node)
    (inside : start ∈ domain)
    : node = taken
      ∨ (start ∈ domain.erase taken
        ∧ ReflTransGen (StepIn next (domain.erase taken)) start node)
      ∨ ∃ later ∈ next taken,
          later ∈ domain.erase taken
          ∧ ReflTransGen (StepIn next (domain.erase taken)) later node := by
  induction path using ReflTransGen.head_induction_on with
  | refl =>
      by_cases same : node = taken
      · exact Or.inl same
      · exact Or.inr (Or.inl ⟨(List.mem_erase_of_ne same).mpr inside, .refl⟩)
  | @head first second step _ ih =>
      rcases ih step.2 with last | ⟨kept, rest⟩ | restart
      · exact Or.inl last
      · by_cases same : first = taken
        · exact Or.inr (Or.inr ⟨second, same ▸ step.1, kept, rest⟩)
        · refine Or.inr (Or.inl ⟨(List.mem_erase_of_ne same).mpr inside, ?_⟩)
          exact rest.head ⟨step.1, kept⟩
      · exact Or.inr (Or.inr restart)

/-- Pending nodes outside the domain lead nowhere, so a search may skip them. -/
theorem found_dropWhile (next : Nat → List Nat) (domain pending : List Nat) (node : Nat)
    : Found next domain (pending.dropWhile fun node => !domain.contains node) node
      ↔ Found next domain pending node := by
  constructor
  · rintro ⟨start, member, inside, path⟩
    exact ⟨start, (List.dropWhile_suffix _).mem member, inside, path⟩
  · rintro ⟨start, member, inside, path⟩
    refine ⟨start, ?_, inside, path⟩
    rw [← List.takeWhile_append_dropWhile (p := fun node => !domain.contains node)
      (l := pending)] at member
    rcases List.mem_append.mp member with skipped | kept
    · have outside := List.mem_takeWhile_imp skipped
      simp [inside] at outside
    · exact kept

/-- A search that takes its first pending node leads to that node and to whatever the search goes
on to: the two inclusions are the two lemmas about the removal of a node.
-/
theorem found_cons {next : Nat → List Nat} {domain : List Nat} {taken : Nat}
    (inside : taken ∈ domain) (rest : List Nat) (node : Nat)
    : Found next domain (taken :: rest) node
      ↔ node = taken ∨ Found next (domain.erase taken) (next taken ++ rest) node := by
  constructor
  · rintro ⟨start, member, startInside, path⟩
    rcases path_avoiding taken path startInside with
      last | ⟨kept, remaining⟩ | ⟨later, edge, kept, remaining⟩
    · exact Or.inl last
    · rcases List.mem_cons.mp member with same | waiting
      · -- The removed node is still in the domain only if the domain listed it twice.
        subst start
        rcases remaining.cases_head with same | ⟨second, step, tail⟩
        · exact Or.inl same.symm
        · exact Or.inr ⟨second, List.mem_append_left _ step.1, step.2, tail⟩
      · exact Or.inr ⟨start, List.mem_append_right _ waiting, kept, remaining⟩
    · exact Or.inr ⟨later, List.mem_append_left _ edge, kept, remaining⟩
  · rintro (same | ⟨start, member, startInside, path⟩)
    · subst node
      exact ⟨taken, List.mem_cons_self, inside, .refl⟩
    · have startKept := List.mem_of_mem_erase startInside
      rcases List.mem_append.mp member with edge | waiting
      · exact ⟨taken, List.mem_cons_self, inside, (path_of_erase path).head ⟨edge, startKept⟩⟩
      · exact ⟨start, List.mem_cons_of_mem _ waiting, startKept, path_of_erase path⟩

-----------------------------------------------------------------------------------------
-- The search itself
-----------------------------------------------------------------------------------------

/-- The search gathers exactly the nodes it leads to, by induction along its own recursion. -/
theorem mem_gather_iff (next : Nat → List Nat) (domain pending : List Nat) (node : Nat)
    : node ∈ gather next domain pending ↔ Found next domain pending node := by
  fun_induction gather next domain pending with
  | case1 domain pending finished =>
      rw [← found_dropWhile, finished]
      simp [Found]
  | case2 domain pending taken rest waiting ih =>
      have inside : taken ∈ domain := by
        have kept := List.head?_dropWhile_not (fun node => !domain.contains node) pending
        rw [waiting] at kept
        simpa using kept
      rw [← found_dropWhile, waiting, found_cons inside, List.mem_cons, ih]

/-- In a graph whose edges stay below the bound, the closure holds exactly what is reached from
the starts over any number of edges.
-/
theorem mem_closure_iff {count : Nat} {next : Nat → List Nat} {starts : List Nat}
    (startsBelow : ∀ start ∈ starts, start < count)
    (edgesBelow : ∀ node, ∀ other ∈ next node, other < count) (node : Nat)
    : node ∈ closure count next starts
      ↔ ∃ start ∈ starts, ReflTransGen (fun first second => second ∈ next first) start node := by
  rw [closure, mem_gather_iff]
  constructor
  · rintro ⟨start, member, _, path⟩
    exact ⟨start, member, ReflTransGen.mono (fun _ _ step => step.1) _ _ path⟩
  · rintro ⟨start, member, path⟩
    refine ⟨start, member, List.mem_range.mpr (startsBelow start member), ?_⟩
    refine ReflTransGen.mono (fun first second edge => ?_) _ _ path
    exact ⟨edge, List.mem_range.mpr (edgesBelow first second edge)⟩

/-- The search gathers every node of a distinct domain once, since it takes each one out of the
domain. By induction along the recursion of the search.
-/
theorem gather_nodup (next : Nat → List Nat) {domain : List Nat} (distinct : domain.Nodup)
    (pending : List Nat)
    : (gather next domain pending).Nodup := by
  fun_induction gather next domain pending with
  | case1 => exact List.nodup_nil
  | case2 domain pending taken rest _ ih =>
      refine List.nodup_cons.mpr ⟨fun again => ?_, ih (distinct.erase taken)⟩
      obtain ⟨start, _, inside, path⟩ := (mem_gather_iff _ _ _ _).mp again
      have left : taken ∈ domain.erase taken := by
        rcases path.cases_tail with same | ⟨_, _, step⟩
        · exact same ▸ inside
        · exact step.2
      exact (distinct.mem_erase_iff.mp left).1 rfl

theorem closure_nodup (count : Nat) (next : Nat → List Nat) (starts : List Nat)
    : (closure count next starts).Nodup :=
  gather_nodup next List.nodup_range starts

end StepPlan.Reach
