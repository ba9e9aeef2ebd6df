import Mathlib.Data.List.Nodup

/-!
Singly linked lists.

`Chain next start l` says that the pointers lead from `start` through the places
of `l` to the null pointer. Such a list is finite and so has no cycle: the places
are different, because what follows a place is determined by it.
-/

namespace Nngpp.Lib

variable {P : Type*}

/-- From `start`, the pointers lead through the places of the list to null. -/
inductive Chain (next : P → Option P) : Option P → List P → Prop
  | nil : Chain next none []
  | cons {p : P} {l : List P} (tail : Chain next (next p) l) : Chain next (some p) (p :: l)

namespace Chain

variable {next : P → Option P} {start : Option P} {l : List P}

/-- What follows a pointer is determined. -/
theorem unique {l' : List P} (h : Chain next start l) (h' : Chain next start l') : l = l' := by
  induction h generalizing l' with
  | nil =>
      cases h'
      rfl
  | cons _ ih =>
      cases h' with
      | cons tail' => rw [ih tail']

/-- From a place of a chain a shorter chain leads on. -/
theorem from_mem (h : Chain next start l) {p : P} (hp : p ∈ l) :
    ∃ l', Chain next (some p) l' ∧ l'.length ≤ l.length := by
  induction h with
  | nil => simp at hp
  | cons tail ih =>
      rcases List.mem_cons.mp hp with rfl | hp
      · exact ⟨_, tail.cons, Nat.le_refl _⟩
      · obtain ⟨l', hl', hle⟩ := ih hp
        refine ⟨l', hl', ?_⟩
        rw [List.length_cons]
        omega

/-- A chain has no cycle. -/
theorem nodup (h : Chain next start l) : l.Nodup := by
  induction h with
  | nil => exact List.nodup_nil
  | @cons p l tail ih =>
      apply List.nodup_cons.mpr
      refine ⟨fun hp => ?_, ih⟩
      -- a second visit to `p` would start a chain that is its own proper part
      obtain ⟨l', hl', hle⟩ := tail.from_mem hp
      have hsame := hl'.unique tail.cons
      rw [hsame, List.length_cons] at hle
      omega

/-- Pointers that start elsewhere may change. -/
theorem congr {next' : P → Option P} (h : Chain next start l) (hnext : ∀ p ∈ l, next' p = next p) :
    Chain next' start l := by
  induction h with
  | nil => exact nil
  | cons tail ih =>
      apply cons
      rw [hnext _ (List.mem_cons_self ..)]
      exact ih fun q hq => hnext q (List.mem_cons_of_mem _ hq)

theorem eq_cons {p : P} (h : Chain next (some p) l) :
    ∃ l', l = p :: l' ∧ Chain next (next p) l' := by
  cases h with
  | cons tail => exact ⟨_, rfl, tail⟩

end Chain

end Nngpp.Lib
