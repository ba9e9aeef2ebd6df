import Nngpp.Lib.Effect

/-!
Threads that share one lock.

An action takes the lock, or gives it back, or leaves it alone; only the first may
have to wait. When each program of a pool takes and gives the lock in turns, at
most one thread has it, and a thread that waits for it is never the reason why
nobody can go on. A thread that has returned does not have it.
-/

namespace Nngpp.Lib

open Function

variable {T ι σ β : Type}

/-- What an action does with the lock, by whether its thread has it. -/
inductive Locking (holder : σ → Option T) (f : T → ι → σ → Option (β × σ)) : Bool → Bool → Prop
  | plain {has : Bool} (goes : ∀ t s, ∃ i r, f t i s = some r)
      (keeps : ∀ t i s b s', f t i s = some (b, s') → holder s' = holder s) :
      Locking holder f has has
  | acquire (goes : ∀ t s, holder s = none → ∃ i r, f t i s = some r)
      (takes : ∀ t i s b s', f t i s = some (b, s') → holder s = none ∧ holder s' = some t) :
      Locking holder f false true
  | release (goes : ∀ t s, ∃ i r, f t i s = some r)
      (frees : ∀ t i s b s', f t i s = some (b, s') → holder s' = none) :
      Locking holder f true false

/-- The program takes the lock and gives it back, in turns. -/
abbrev Prog.Locks (holder : σ → Option T) (p : Prog T ι σ Unit) (has : Bool) : Prop :=
  p.Typed (Locking holder) (fun _ has' => has' = false) has

namespace Pool

variable [DecidableEq T] {holder : σ → Option T} {w w' : Pool T ι σ} {t : T} {i : ι}

/-- Each thread has the lock just where its program says so. -/
structure Exclusive (holder : σ → Option T) (w : Pool T ι σ) : Prop where
  locks : ∀ t p, w.code t = some p → p.Locks holder (decide (holder w.shared = some t))
  held : ∀ t, holder w.shared = some t → w.code t ≠ none

/-- A step of a thread whose program has not ended. -/
theorem run_act {f : T → ι → σ → Option (β × σ)} {k : β → Prog T ι σ Unit}
    (hcode : w.code t = some (.act f k)) :
    w.run t i = (f t i w.shared).map fun p =>
      { w with shared := p.2, code := update w.code t (some (k p.1)) } := by
  simp only [run, hcode]

namespace Exclusive

theorem spawn (h : Exclusive holder w) (ht : w.code t = none) {p : Prog T ι σ Unit}
    (hp : p.Locks holder false) {s : σ} (hs : holder s = holder w.shared) :
    Exclusive holder (w.spawn t p s) := by
  have hholder : holder s ≠ some t := fun heq => h.held t (hs ▸ heq) ht
  constructor
  · intro u q hu
    by_cases hut : u = t
    · subst hut
      simp only [Pool.spawn, update_self, Option.some.injEq] at hu
      subst hu
      simpa [Pool.spawn, hholder] using hp
    · simp only [Pool.spawn, update_of_ne hut] at hu
      simpa only [Pool.spawn, hs] using h.locks u q hu
  · intro u hu
    by_cases hut : u = t
    · subst hut
      simp [Pool.spawn]
    · simpa only [Pool.spawn, update_of_ne hut] using h.held u (hs ▸ hu)

theorem outside (h : Exclusive holder w) {s : σ}
    (hs : holder s = holder w.shared) : Exclusive holder { w with shared := s } := by
  constructor
  · intro u q hu
    simpa only [hs] using h.locks u q hu
  · intro u hu
    exact h.held u (hs ▸ hu)

/-- A thread goes on to another point of its program, where it has the lock or not. -/
theorem next (h : Exclusive holder w) (ht : w.code t ≠ none) {s : σ} {p : Prog T ι σ Unit}
    (hp : p.Locks holder (decide (holder s = some t)))
    (hothers : ∀ u, u ≠ t → (holder s = some u ↔ holder w.shared = some u)) :
    Exclusive holder { w with shared := s, code := update w.code t (some p) } := by
  constructor
  · intro u q hu
    by_cases hut : u = t
    · subst hut
      simp only [update_self, Option.some.injEq] at hu
      rwa [← hu]
    · simp only [update_of_ne hut] at hu
      simpa only [hothers u hut] using h.locks u q hu
  · intro u hu
    by_cases hut : u = t
    · subst hut
      simp
    · simpa only [update_of_ne hut] using h.held u ((hothers u hut).mp hu)

theorem run (h : Exclusive holder w) (hrun : w.run t i = some w') : Exclusive holder w' := by
  cases hcode : w.code t with
  | none => simp [Pool.run, hcode] at hrun
  | some p =>
      have ht : w.code t ≠ none := by simp [hcode]
      have hlocks := h.locks t p hcode
      cases p with
      | pure a => simp [Pool.run, hcode] at hrun
      | halt =>
          simp only [Pool.run, hcode, Option.some.injEq] at hrun
          rw [← hrun]
          exact ⟨h.locks, h.held⟩
      | act f k =>
          rw [run_act hcode] at hrun
          obtain ⟨⟨b, s⟩, hf, rfl⟩ := Option.map_eq_some_iff.mp hrun
          obtain ⟨has, hlocking, hk⟩ := hlocks
          generalize hhas : decide (holder w.shared = some t) = before at hlocking
          cases hlocking with
          | plain goes keeps =>
              have hs := keeps t i w.shared b s hf
              apply h.next ht
              · rw [hs, hhas]
                exact hk b
              · intro u _
                rw [hs]
          | acquire goes takes =>
              obtain ⟨hnone, hs⟩ := takes t i w.shared b s hf
              apply h.next ht
              · simpa [hs] using hk b
              · intro u hu
                simp [hs, hnone, Ne.symm hu]
          | release goes frees =>
              have hs := frees t i w.shared b s hf
              have hheld : holder w.shared = some t := of_decide_eq_true hhas
              apply h.next ht
              · simpa [hs] using hk b
              · intro u hu
                simp [hs, hheld, Ne.symm hu]

section Progress

variable [Nonempty ι]

/-- A thread that has the lock can go on. -/
theorem holder_goes (h : Exclusive holder w) (ht : holder w.shared = some t) :
    ∃ i w', w.run t i = some w' := by
  obtain ⟨p, hcode⟩ := Option.ne_none_iff_exists'.mp (h.held t ht)
  have hlocks := h.locks t p hcode
  rw [decide_eq_true ht] at hlocks
  cases p with
  | pure a => cases hlocks
  | halt =>
      obtain ⟨i⟩ := ‹Nonempty ι›
      exact ⟨i, { w with exited := true }, by simp only [Pool.run, hcode]⟩
  | act f k =>
      obtain ⟨has, hlocking, -⟩ := hlocks
      have hgoes : ∃ i r, f t i w.shared = some r := by
        cases hlocking with
        | plain goes keeps => exact goes t w.shared
        | release goes frees => exact goes t w.shared
      obtain ⟨i, r, hf⟩ := hgoes
      exact ⟨i, _, by rw [run_act hcode, hf]; rfl⟩

/-- A thread that has not returned can go on, or waits for one that can. -/
theorem progress (h : Exclusive holder w) {p : Prog T ι σ Unit} (hcode : w.code t = some p)
    (hp : p ≠ .pure ()) : ∃ u i w', w.run u i = some w' := by
  cases hholder : holder w.shared with
  | some u => exact ⟨u, h.holder_goes hholder⟩
  | none =>
      have hlocks := h.locks t p hcode
      rw [hholder, decide_eq_false (by simp)] at hlocks
      cases p with
      | pure a => exact absurd rfl hp
      | halt =>
          obtain ⟨i⟩ := ‹Nonempty ι›
          exact ⟨t, i, { w with exited := true }, by simp only [Pool.run, hcode]⟩
      | act f k =>
          obtain ⟨has, hlocking, -⟩ := hlocks
          have hgoes : ∃ i r, f t i w.shared = some r := by
            cases hlocking with
            | plain goes keeps => exact goes t w.shared
            | acquire goes takes => exact goes t w.shared hholder
          obtain ⟨i, r, hf⟩ := hgoes
          exact ⟨t, i, _, by rw [run_act hcode, hf]; rfl⟩

/-- Where nobody can go on, everybody has returned, and nobody has the lock. -/
theorem at_rest (h : Exclusive holder w) (hrest : ∀ t i, w.run t i = none) :
    (∀ t p, w.code t = some p → p = .pure ()) ∧ holder w.shared = none := by
  constructor
  · intro t p hcode
    by_contra hp
    obtain ⟨u, i, w', hrun⟩ := h.progress hcode hp
    rw [hrest u i] at hrun
    cases hrun
  · cases hholder : holder w.shared with
    | none => rfl
    | some t =>
        obtain ⟨i, w', hrun⟩ := h.holder_goes hholder
        rw [hrest t i] at hrun
        cases hrun

end Progress

end Exclusive

end Pool

end Nngpp.Lib
