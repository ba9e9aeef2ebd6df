import Nngpp.Lib.Commute

/-!
Loops with a counter, in programs that may throw.

`Code.iterate n f a` is `for( int i = 0; i < n; ++i ) a = f(a);`. Its rule wants
an invariant that counts the rounds which are over.
-/

namespace Nngpp.Lib

variable {T ι σ W ε α : Type}

/-- `for( int i = 0; i < n; ++i ) a = f(a);`. -/
def Code.iterate : ℕ → (α → Code T ι σ ε α) → α → Code T ι σ ε α
  | 0, _, a => pure a
  | n + 1, f, a => f a >>= Code.iterate n f

theorem Prog.All.iterate {A : ∀ {β : Type}, (T → ι → σ → Option (β × σ)) → Prop}
    {f : α → Code T ι σ ε α} (hf : ∀ a, (f a).run.All A) (n : ℕ) (a : α) :
    (Code.iterate n f a).run.All A := by
  induction n generalizing a with
  | zero => trivial
  | succ n ih => exact All.bind_code (hf a) ih

/-- `I i` holds when `i` rounds are over. -/
theorem Logic.Ok.iterate {L : Logic T σ W} {t : T} {I : ℕ → α → W → Prop} {E : ε → W → Prop}
    {f : α → Code T ι σ ε α} {n : ℕ}
    (hf : ∀ i a w, i < n → I i a w → L.Ok t (f a) (I (i + 1)) E w) {a : α} {w : W}
    (h : I 0 a w) : L.Ok t (Code.iterate n f a) (I n) E w := by
  -- the induction is on the rounds that are left, with `i` rounds over
  suffices H : ∀ k i, i + k = n → ∀ a w, I i a w → L.Ok t (Code.iterate k f a) (I n) E w from
    H n 0 (by omega) a w h
  intro k
  induction k with
  | zero =>
      intro i hi a w hw
      obtain rfl : i = n := by omega
      exact Ok.pure hw
  | succ k ih =>
      intro i hi a w hw
      apply Ok.bind
      apply Safe.mono (hf i a w (by omega) hw)
      intro r w' hw'
      cases r with
      | error e => exact hw'
      | ok a' => exact ih (i + 1) (by omega) a' w' hw'

end Nngpp.Lib
