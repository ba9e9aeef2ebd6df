import Nngpp.Lib.Loop

/-!
A thread that runs alone.

To find one schedule of a pool it is enough to let the threads take turns, each
for as long as it likes. `Alone` is such a turn, always with the same answer of
the environment, and `Yields` is a turn in which a part of a program returns.
-/

namespace Nngpp.Lib

open Function

variable {T ι σ ε α β : Type}

namespace Prog

/-- Two programs that begin with the same action. -/
theorem act_congr {f : T → ι → σ → Option (β × σ)} {k k' : β → Prog T ι σ α}
    (h : ∀ b, k b = k' b) : Prog.act f k = .act f k' :=
  congrArg (Prog.act f) (funext h)

theorem map_id (p : Prog T ι σ α) : id <$> p = p := by
  induction p with
  | pure a => rfl
  | act f k ih => exact act_congr ih
  | halt => rfl

theorem bind_bind {γ : Type} (p : Prog T ι σ α) (f : α → Prog T ι σ β) (g : β → Prog T ι σ γ) :
    p >>= f >>= g = p >>= fun a => f a >>= g := by
  induction p with
  | pure a => rfl
  | act f k ih => exact act_congr ih
  | halt => rfl

instance : LawfulMonad (Prog T ι σ) := LawfulMonad.mk' _ map_id (fun _ _ => rfl) bind_bind

end Prog

/-- The program of a thread, and the shared state, before and after a turn. -/
inductive Prog.Alone (t : T) (i : ι) : σ → Prog T ι σ α → σ → Prog T ι σ α → Prop
  | refl {s : σ} {p : Prog T ι σ α} : Alone t i s p s p
  | act {β : Type} {f : T → ι → σ → Option (β × σ)} {k : β → Prog T ι σ α} {s s' s'' : σ} {b : β}
      {p : Prog T ι σ α} (hf : f t i s = some (b, s')) (rest : Alone t i s' (k b) s'' p) :
      Alone t i s (.act f k) s'' p

namespace Prog.Alone

variable {t : T} {i : ι} {s s' s'' : σ} {p q r : Prog T ι σ α}

theorem trans (h : Alone t i s p s' q) (h' : Alone t i s' q s'' r) : Alone t i s p s'' r := by
  induction h with
  | refl => exact h'
  | act hf _ ih => exact .act hf (ih h')

/-- What a turn means for a pool. -/
theorem follow [DecidableEq T] {s s' : σ} {p q : Prog T ι σ Unit} (h : Alone t i s p s' q)
    {w : Pool T ι σ} (hs : w.shared = s) (hcode : w.code t = some p) :
    ∃ ls, Run.follow (fun w : Pool T ι σ => fun t => w.run t i) w ls = some (w.spawn t q s') := by
  induction h generalizing w with
  | refl =>
      refine ⟨[], congrArg some ?_⟩
      rw [Pool.spawn, ← hs, ← hcode, update_eq_self]
  | @act β f k s₁ s₂ s₃ b p' hf _ ih =>
      have hrun : w.run t i = some (w.spawn t (k b) s₂) := by
        simp only [Pool.run, hcode, hs, hf]
        rfl
      obtain ⟨ls, hls⟩ := ih (w := w.spawn t (k b) s₂) rfl (update_self ..)
      refine ⟨t :: ls, ?_⟩
      rw [Run.follow, hrun]
      refine hls.trans (congrArg some ?_)
      simp [Pool.spawn]

end Prog.Alone

/-- Running alone, `x` returns `a`, whatever comes after it. -/
def Code.Yields (t : T) (i : ι) (s : σ) (x : Code T ι σ ε α) (a : α) (s' : σ) : Prop :=
  ∀ k : α → Code T ι σ ε Unit, Prog.Alone t i s (x >>= k).orExit s' (k a).orExit

namespace Code.Yields

variable {t : T} {i : ι} {s s' s'' : σ}

theorem pure (a : α) : Yields t i s (Pure.pure a : Code T ι σ ε α) a s := by
  intro k
  rw [pure_bind]
  exact .refl

theorem act {f : T → ι → σ → Option (β × σ)} {b : β} (hf : f t i s = some (b, s')) :
    Yields t i s (Code.act f : Code T ι σ ε β) b s' :=
  fun _ => .act hf .refl

theorem bind {x : Code T ι σ ε α} {g : α → Code T ι σ ε β} {a : α} {b : β}
    (hx : Yields t i s x a s') (hg : Yields t i s' (g a) b s'') : Yields t i s (x >>= g) b s'' := by
  intro k
  rw [bind_assoc]
  exact (hx _).trans (hg k)

/-- A program that returns. -/
theorem orExit {x : Code T ι σ ε Unit} (hx : Yields t i s x () s') :
    Prog.Alone t i s x.orExit s' (.pure ()) := by
  have hbind : x >>= (fun _ => Pure.pure ()) = x := bind_pure x
  rw [← hbind]
  exact hx _

end Code.Yields

end Nngpp.Lib
