import Nngpp.Lib.Commute

/-!
A logic with one more invariant.

When a program is verified already, and something else is found to be always true
of its state, only those actions need another look that could make it false. The
rest of the program is `All` of actions that keep it, and its proof is reused.
-/

namespace Nngpp.Lib

variable {T ι σ W ε α β : Type}

namespace Logic

/-- The same logic, with another invariant. -/
def and (L : Logic T σ W) (J : σ → Prop) : Logic T σ W where
  Inv s := L.Inv s ∧ J s
  Sees := L.Sees

/-- An action keeps `J`, between two states that satisfy the invariant. -/
def Keeps (L : Logic T σ W) (J : σ → Prop) (f : T → ι → σ → Option (β × σ)) : Prop :=
  ∀ t i s b s', L.Inv s → L.Inv s' → J s → f t i s = some (b, s') → J s'

variable {L : Logic T σ W} {J : σ → Prop} {t : T} {w : W}

theorem Spec.and {f : T → ι → σ → Option (β × σ)} {P : β → W → Prop} (h : L.Spec t f w P)
    (hJ : ∀ s i b s', L.Inv s → L.Sees t s w → L.Inv s' → J s → f t i s = some (b, s') → J s') :
    (L.and J).Spec t f w P := by
  intro s i b s' hinv hsees hf
  obtain ⟨hinv', hframes, w', hsees', hP⟩ := h s i b s' hinv.1 hsees hf
  exact ⟨⟨hinv', hJ s i b s' hinv.1 hsees hinv' hinv.2 hf⟩, hframes, w', hsees', hP⟩

theorem Spec.and_keeps {f : T → ι → σ → Option (β × σ)} {P : β → W → Prop} (h : L.Spec t f w P)
    (hf : L.Keeps J f) : (L.and J).Spec t f w P :=
  h.and fun s i b s' hinv _ hinv' hJ hrun => hf t i s b s' hinv hinv' hJ hrun

/-- What is true of every result of an action may be assumed of its result. -/
theorem Spec.result {f : T → ι → σ → Option (β × σ)} {P : β → W → Prop} {R : β → Prop}
    (h : L.Spec t f w fun b w' => R b → P b w')
    (hR : ∀ s i b s', L.Inv s → L.Sees t s w → f t i s = some (b, s') → R b) :
    L.Spec t f w P := by
  intro s i b s' hinv hsees hf
  obtain ⟨hinv', hframes, w', hsees', hP⟩ := h s i b s' hinv hsees hf
  exact ⟨hinv', hframes, w', hsees', hP (hR s i b s' hinv hsees hf)⟩

/-- A program that is verified, and made of actions that keep `J`. -/
theorem Safe.and {p : Prog T ι σ α} {Q : α → W → Prop} (h : L.Safe t p Q w)
    (hp : p.All (L.Keeps J)) : (L.and J).Safe t p Q w := by
  induction p generalizing w with
  | pure a => exact h
  | act f k ih =>
      have hspec : (L.and J).Spec t f w fun b w' => L.Safe t (k b) Q w' := Spec.and_keeps h hp.1
      exact hspec.mono fun b w' hw' => ih b hw' (hp.2 b)
  | halt => trivial

theorem Ok.and {x : Code T ι σ ε α} {Q : α → W → Prop} {E : ε → W → Prop} (h : L.Ok t x Q E w)
    (hx : x.run.All (L.Keeps J)) : (L.and J).Ok t x Q E w := by
  refine (Safe.and h hx).mono fun r w' hw' => ?_
  cases r <;> exact hw'

end Logic

end Nngpp.Lib
