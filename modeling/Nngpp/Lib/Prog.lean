import Mathlib.Logic.Function.Basic

/-!
Programs whose threads interleave, and how to reason about one thread at a time.

A `Prog` is a tree of actions. An action sees the thread that performs it and the
answer of the environment, and it takes effect at once; it may have to wait,
which is `none`. `halt` ends the process.

A `Logic` says what is always true of the shared state, and what a thread can
know of it. `Spec` is the contract of an action: it keeps the invariant, it takes
nothing away from what other threads know, and the thread knows afterwards what
the contract says. Then `Safe` is the weakest precondition of a program, in terms
of what its thread knows, and `Pool.Sound` is an invariant of all interleavings:
no proof about a thread mentions another one.
-/

namespace Nngpp.Lib

open Function

/-- A program of a thread `T`, with answers `ι`, on a shared state `σ`. -/
inductive Prog (T ι σ α : Type) : Type 1
  | pure (a : α)
  | act {β : Type} (f : T → ι → σ → Option (β × σ)) (k : β → Prog T ι σ α)
  | halt

namespace Prog

variable {T ι σ α β : Type}

protected def bind : Prog T ι σ α → (α → Prog T ι σ β) → Prog T ι σ β
  | .pure a, g => g a
  | .act f k, g => .act f fun b => (k b).bind g
  | .halt, _ => .halt

instance : Monad (Prog T ι σ) where
  pure := .pure
  bind := .bind

/-- No action of the program ever waits. -/
def Nonblocking : Prog T ι σ α → Prop
  | .pure _ => True
  | .act f k => (∀ t i s, f t i s ≠ none) ∧ ∀ b, (k b).Nonblocking
  | .halt => True

theorem Nonblocking.bind {p : Prog T ι σ α} {g : α → Prog T ι σ β} (hp : p.Nonblocking)
    (hg : ∀ a, (g a).Nonblocking) : (p >>= g).Nonblocking := by
  induction p with
  | pure a => exact hg a
  | act f k ih => exact ⟨hp.1, fun b => ih b (hp.2 b)⟩
  | halt => trivial

end Prog

/-- What is always true of the shared state, and what a thread knows of it. -/
structure Logic (T σ W : Type) where
  Inv : σ → Prop
  Sees : T → σ → W → Prop

namespace Logic

variable {T ι σ W ε α β : Type} (L : Logic T σ W)

/-- The other threads go on knowing what they know. -/
def Frames (t : T) (s s' : σ) : Prop := ∀ u, u ≠ t → ∀ w, L.Sees u s w → L.Sees u s' w

/-- The contract of an action, for a thread that knows `w`. -/
def Spec (t : T) (f : T → ι → σ → Option (β × σ)) (w : W) (P : β → W → Prop) : Prop :=
  ∀ s i b s', L.Inv s → L.Sees t s w → f t i s = some (b, s') →
    L.Inv s' ∧ L.Frames t s s' ∧ ∃ w', L.Sees t s' w' ∧ P b w'

/-- What a thread has to know so that its program keeps all contracts and ends
with `Q`. -/
def Safe (t : T) : Prog T ι σ α → (α → W → Prop) → W → Prop
  | .pure a, Q, w => Q a w
  | .act f k, Q, w => L.Spec t f w fun b w' => Safe t (k b) Q w'
  | .halt, _, _ => True

variable {L} {t : T} {w : W}

theorem Spec.mono {f : T → ι → σ → Option (β × σ)} {P P' : β → W → Prop} (h : L.Spec t f w P)
    (hP : ∀ b w', P b w' → P' b w') : L.Spec t f w P' := by
  intro s i b s' hinv hsees hf
  obtain ⟨hinv', hframes, w', hsees', hw'⟩ := h s i b s' hinv hsees hf
  exact ⟨hinv', hframes, w', hsees', hP b w' hw'⟩

theorem Safe.mono {p : Prog T ι σ α} {Q Q' : α → W → Prop} (h : L.Safe t p Q w)
    (hQ : ∀ a w', Q a w' → Q' a w') : L.Safe t p Q' w := by
  induction p generalizing w with
  | pure a => exact hQ a w h
  | act f k ih => exact Spec.mono h fun b w' hb => ih b hb
  | halt => trivial

theorem Safe.bind {p : Prog T ι σ α} {g : α → Prog T ι σ β} {Q : β → W → Prop}
    (h : L.Safe t p (fun a => L.Safe t (g a) Q) w) : L.Safe t (p >>= g) Q w := by
  induction p generalizing w with
  | pure a => exact h
  | act f k ih => exact Spec.mono h fun b w' hb => ih b hb
  | halt => trivial

end Logic

/-! ### Programs that throw -/

/-- A program that may throw. -/
abbrev Code (T ι σ ε α : Type) := ExceptT ε (Prog T ι σ) α

namespace Code

variable {T ι σ ε α β : Type}

/-- An action that does not throw. -/
def act (f : T → ι → σ → Option (β × σ)) : Code T ι σ ε β :=
  ExceptT.lift (Prog.act f Prog.pure)

/-- `try { x } catch( e ) { … }`: how `x` ended. -/
def attempt (x : Code T ι σ ε α) : Code T ι σ ε (Except ε α) := ExceptT.lift x.run

/-- A function in a try block whose handlers call `exit`. -/
def orExit (x : Code T ι σ ε α) : Prog T ι σ Unit := do
  match (← x.run) with
  | .ok _ => return
  | .error _ => .halt

end Code

/-! ### Programs that never wait -/

namespace Prog.Nonblocking

variable {T ι σ ε α β : Type}

theorem bind_code {x : Code T ι σ ε α} {g : α → Code T ι σ ε β} (hx : x.run.Nonblocking)
    (hg : ∀ a, (g a).run.Nonblocking) : (x >>= g).run.Nonblocking := by
  apply Nonblocking.bind hx
  rintro (e | a)
  · trivial
  · exact hg a

theorem act_code {f : T → ι → σ → Option (β × σ)} (hf : ∀ t i s, f t i s ≠ none) :
    (Code.act f : Code T ι σ ε β).run.Nonblocking :=
  ⟨hf, fun _ => trivial⟩

theorem orExit {x : Code T ι σ ε α} (hx : x.run.Nonblocking) : x.orExit.Nonblocking := by
  apply Nonblocking.bind hx
  rintro (e | a) <;> trivial

end Prog.Nonblocking

namespace Logic

variable {T ι σ W ε α β : Type} {L : Logic T σ W} {t : T} {w : W}

variable (L) in
/-- `Safe` for a program that may throw: `Q` when it returns and `E` when it
throws. -/
def Ok (t : T) (x : Code T ι σ ε α) (Q : α → W → Prop) (E : ε → W → Prop) (w : W) : Prop :=
  L.Safe t x.run (fun r => match r with
    | .ok a => Q a
    | .error e => E e) w

theorem Ok.pure {a : α} {Q : α → W → Prop} {E : ε → W → Prop} (h : Q a w) :
    L.Ok t (Pure.pure a : Code T ι σ ε α) Q E w := h

theorem Ok.throw {e : ε} {Q : α → W → Prop} {E : ε → W → Prop} (h : E e w) :
    L.Ok t (MonadExcept.throw e : Code T ι σ ε α) Q E w := h

theorem Ok.bind {x : Code T ι σ ε α} {g : α → Code T ι σ ε β} {Q : β → W → Prop}
    {E : ε → W → Prop} (h : L.Ok t x (fun a => L.Ok t (g a) Q E) E w) : L.Ok t (x >>= g) Q E w := by
  apply Safe.bind
  apply Safe.mono h
  rintro (e | a) w' hw'
  · exact hw'
  · exact hw'

theorem Ok.act {f : T → ι → σ → Option (β × σ)} {Q : β → W → Prop} {E : ε → W → Prop}
    (h : L.Spec t f w Q) : L.Ok t (Code.act f : Code T ι σ ε β) Q E w :=
  h

theorem Ok.attempt {x : Code T ι σ ε α} {Q : Except ε α → W → Prop} {E : ε → W → Prop}
    (h : L.Ok t x (fun a => Q (.ok a)) (fun e => Q (.error e)) w) :
    L.Ok t (Code.attempt x) Q E w := by
  apply Safe.bind
  apply Safe.mono h
  rintro (e | a) w' hw'
  · exact hw'
  · exact hw'

theorem Ok.orExit {x : Code T ι σ ε α} {Q : W → Prop}
    (h : L.Ok t x (fun _ => Q) (fun _ _ => True) w) :
    L.Safe t x.orExit (fun _ => Q) w := by
  apply Safe.bind
  apply Safe.mono h
  rintro (e | a) w' hw'
  · trivial
  · exact hw'

end Logic

/-! ### Threads -/

/-- The shared state, what each thread has left to do, and whether the process has
ended. -/
structure Pool (T ι σ : Type) where
  shared : σ
  code : T → Option (Prog T ι σ Unit)
  exited : Bool

namespace Pool

variable {T ι σ W : Type} [DecidableEq T]

/-- One action of a thread. -/
def run (w : Pool T ι σ) (t : T) (i : ι) : Option (Pool T ι σ) :=
  match w.code t with
  | some (.act f k) =>
      (f t i w.shared).map fun p =>
        { w with shared := p.2, code := update w.code t (some (k p.1)) }
  | some .halt => some { w with exited := true }
  | _ => none

/-- The environment changes the shared state and starts a thread. -/
def spawn (w : Pool T ι σ) (t : T) (p : Prog T ι σ Unit) (s : σ) : Pool T ι σ :=
  { w with shared := s, code := update w.code t (some p) }

/-- The invariant holds, each thread knows enough for what it has left to do, and
a thread that has not started has nothing to do. -/
structure Sound (L : Logic T σ W) (Done : W → Prop) (w : Pool T ι σ) : Prop where
  inv : L.Inv w.shared
  threads : ∀ t p, w.code t = some p → ∃ v, L.Sees t w.shared v ∧ L.Safe t p (fun _ => Done) v
  absent : ∀ t, w.code t = none → ∃ v, L.Sees t w.shared v ∧ Done v

variable {L : Logic T σ W} {Done : W → Prop} {w w' : Pool T ι σ}

namespace Sound

/-- One thread changes the shared state and its program, as its contracts say. -/
theorem spawn (h : Sound L Done w) {t : T} {p : Prog T ι σ Unit} {s : σ} {v : W}
    (hinv : L.Inv s) (hframes : L.Frames t w.shared s) (hsees : L.Sees t s v)
    (hsafe : L.Safe t p (fun _ => Done) v) : Sound L Done (w.spawn t p s) where
  inv := hinv
  threads u q hu := by
    rcases eq_or_ne u t with rfl | hne
    · simp only [Pool.spawn, update_self, Option.some.injEq] at hu
      rw [← hu]
      exact ⟨v, hsees, hsafe⟩
    · simp only [Pool.spawn, update_of_ne hne] at hu
      obtain ⟨v', hsees', hsafe'⟩ := h.threads u q hu
      exact ⟨v', hframes u hne v' hsees', hsafe'⟩
  absent u hu := by
    have hne : u ≠ t := by
      rintro rfl
      simp [Pool.spawn] at hu
    simp only [Pool.spawn, update_of_ne hne] at hu
    obtain ⟨v', hsees', hdone⟩ := h.absent u hu
    exact ⟨v', hframes u hne v' hsees', hdone⟩

omit [DecidableEq T] in
/-- The environment changes the shared state. -/
theorem outside (h : Sound L Done w) {s : σ} (hinv : L.Inv s)
    (hframes : ∀ u v, L.Sees u w.shared v → L.Sees u s v) :
    Sound L Done { w with shared := s } where
  inv := hinv
  threads u q hu := by
    obtain ⟨v, hsees, hsafe⟩ := h.threads u q hu
    exact ⟨v, hframes u v hsees, hsafe⟩
  absent u hu := by
    obtain ⟨v, hsees, hdone⟩ := h.absent u hu
    exact ⟨v, hframes u v hsees, hdone⟩

/-- Every action of every thread keeps a pool sound. -/
theorem run (h : Sound L Done w) {t : T} {i : ι} (hrun : w.run t i = some w') :
    Sound L Done w' := by
  cases hcode : w.code t with
  | none => simp [Pool.run, hcode] at hrun
  | some p =>
      cases p with
      | pure a => simp [Pool.run, hcode] at hrun
      | halt =>
          simp only [Pool.run, hcode, Option.some.injEq] at hrun
          rw [← hrun]
          exact ⟨h.inv, h.threads, h.absent⟩
      | act f k =>
          simp only [Pool.run, hcode, Option.map_eq_some_iff] at hrun
          obtain ⟨⟨b, s⟩, hf, rfl⟩ := hrun
          obtain ⟨v, hsees, hsafe⟩ := h.threads t _ hcode
          obtain ⟨hinv, hframes, v', hsees', hsafe'⟩ := hsafe w.shared i b s h.inv hsees hf
          exact h.spawn hinv hframes hsees' hsafe'

/-- What a thread does takes nothing away from what the others know. -/
theorem run_frames (h : Sound L Done w) {t : T} {i : ι} (hrun : w.run t i = some w') :
    L.Frames t w.shared w'.shared := by
  cases hcode : w.code t with
  | none => simp [Pool.run, hcode] at hrun
  | some p =>
      cases p with
      | pure a => simp [Pool.run, hcode] at hrun
      | halt =>
          simp only [Pool.run, hcode, Option.some.injEq] at hrun
          rw [← hrun]
          exact fun _ _ _ hu => hu
      | act f k =>
          simp only [Pool.run, hcode, Option.map_eq_some_iff] at hrun
          obtain ⟨⟨b, s⟩, hf, rfl⟩ := hrun
          obtain ⟨v, hsees, hsafe⟩ := h.threads t _ hcode
          exact (hsafe w.shared i b s h.inv hsees hf).2.1

omit [DecidableEq T] in
/-- A thread that has returned is done. -/
theorem returned (h : Sound L Done w) {t : T} (ht : w.code t = some (.pure ())) :
    ∃ v, L.Sees t w.shared v ∧ Done v :=
  h.threads t _ ht

end Sound

/-- No thread has anything left to do that waits. -/
def Nonblocking (w : Pool T ι σ) : Prop := ∀ t p, w.code t = some p → p.Nonblocking

namespace Nonblocking

theorem spawn (h : Nonblocking w) (t : T) {p : Prog T ι σ Unit} (hp : p.Nonblocking) (s : σ) :
    Nonblocking (w.spawn t p s) := by
  intro u q hu
  rcases eq_or_ne u t with rfl | hne
  · simp only [Pool.spawn, update_self, Option.some.injEq] at hu
    rwa [← hu]
  · simp only [Pool.spawn, update_of_ne hne] at hu
    exact h u q hu

theorem run (h : Nonblocking w) {t : T} {i : ι} (hrun : w.run t i = some w') :
    Nonblocking w' := by
  cases hcode : w.code t with
  | none => simp [Pool.run, hcode] at hrun
  | some p =>
      cases p with
      | pure a => simp [Pool.run, hcode] at hrun
      | halt =>
          simp only [Pool.run, hcode, Option.some.injEq] at hrun
          rw [← hrun]
          exact h
      | act f k =>
          simp only [Pool.run, hcode, Option.map_eq_some_iff] at hrun
          obtain ⟨⟨b, s⟩, hf, rfl⟩ := hrun
          exact h.spawn t ((h t _ hcode).2 b) s

/-- A thread that has not returned can always go on. -/
theorem progress (h : Nonblocking w) {t : T} {p : Prog T ι σ Unit} (ht : w.code t = some p)
    (hp : p ≠ .pure ()) (i : ι) : ∃ w', w.run t i = some w' := by
  cases p with
  | pure a => exact absurd rfl hp
  | halt => exact ⟨_, by rw [Pool.run, ht]⟩
  | act f k =>
      obtain ⟨r, hr⟩ := Option.ne_none_iff_exists'.mp ((h t _ ht).1 t i w.shared)
      exact ⟨_, by rw [Pool.run, ht]; simp only [hr]; rfl⟩

end Nonblocking

end Pool

end Nngpp.Lib
