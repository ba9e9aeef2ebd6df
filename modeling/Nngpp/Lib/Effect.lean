import Nngpp.Lib.Commute

/-!
Effects that can be read off the text of a program.

What a thread has at a point of its program, such as a lock or a number of
statements that it may still take, is an effect state. `R` says how an action
changes it. It does not depend on what the action finds in the shared state, so
that a program is typed once, by going through its text, and what the effect
states mean is said afterwards, by proofs about single actions.
-/

namespace Nngpp.Lib

variable {T ι σ ε E F α β : Type}

/-- From `e`, every way through the program has its effects, and one that returns
ends with `Q`. -/
def Prog.Typed (R : ∀ {β : Type}, (T → ι → σ → Option (β × σ)) → E → E → Prop) :
    Prog T ι σ α → (α → E → Prop) → E → Prop
  | .pure a, Q, e => Q a e
  | .act f k, Q, e => ∃ e', R f e e' ∧ ∀ b, (k b).Typed R Q e'
  | .halt, _, _ => True

namespace Prog.Typed

variable {R : ∀ {β : Type}, (T → ι → σ → Option (β × σ)) → E → E → Prop} {e : E}

theorem mono {p : Prog T ι σ α} {Q Q' : α → E → Prop} (h : p.Typed R Q e)
    (hQ : ∀ a e', Q a e' → Q' a e') : p.Typed R Q' e := by
  induction p generalizing e with
  | pure a => exact hQ a e h
  | act f k ih =>
      obtain ⟨e', hf, hk⟩ := h
      exact ⟨e', hf, fun b => ih b (hk b)⟩
  | halt => trivial

theorem bind {p : Prog T ι σ α} {g : α → Prog T ι σ β} {Q : β → E → Prop}
    (h : p.Typed R (fun a e' => (g a).Typed R Q e') e) : (p >>= g).Typed R Q e := by
  induction p generalizing e with
  | pure a => exact h
  | act f k ih =>
      obtain ⟨e', hf, hk⟩ := h
      exact ⟨e', hf, fun b => ih b (hk b)⟩
  | halt => trivial

/-- A part of the effects. -/
theorem part {S : ∀ {β : Type}, (T → ι → σ → Option (β × σ)) → F → F → Prop} (π : E → F)
    (hR : ∀ {β : Type} {f : T → ι → σ → Option (β × σ)} {e e' : E}, R f e e' → S f (π e) (π e'))
    {p : Prog T ι σ α} {Q : α → E → Prop} {Q' : α → F → Prop} (h : p.Typed R Q e)
    (hQ : ∀ a e', Q a e' → Q' a (π e')) : p.Typed S Q' (π e) := by
  induction p generalizing e with
  | pure a => exact hQ a e h
  | act f k ih =>
      obtain ⟨e', hf, hk⟩ := h
      exact ⟨π e', hR hf, fun b => ih b (hk b)⟩
  | halt => trivial

/-- What every action has that has an effect. -/
theorem all {A : ∀ {β : Type}, (T → ι → σ → Option (β × σ)) → Prop}
    (hA : ∀ {β : Type} {f : T → ι → σ → Option (β × σ)} {e e' : E}, R f e e' → A f)
    {p : Prog T ι σ α} {Q : α → E → Prop} (h : p.Typed R Q e) : p.All A := by
  induction p generalizing e with
  | pure a => trivial
  | act f k ih =>
      obtain ⟨e', hf, hk⟩ := h
      exact ⟨hA hf, fun b => ih b (hk b)⟩
  | halt => trivial

end Prog.Typed

/-- `Typed` for a program that may throw: `Q` when it returns and `X` when it
throws. -/
def Code.Typed (R : ∀ {β : Type}, (T → ι → σ → Option (β × σ)) → E → E → Prop)
    (x : Code T ι σ ε α) (Q : α → E → Prop) (X : E → Prop) (e : E) : Prop :=
  x.run.Typed R (fun r => match r with
    | .ok a => Q a
    | .error _ => X) e

namespace Code.Typed

variable {R : ∀ {β : Type}, (T → ι → σ → Option (β × σ)) → E → E → Prop} {e e' : E} {X : E → Prop}

theorem pure {a : α} {Q : α → E → Prop} (h : Q a e) :
    Code.Typed R (Pure.pure a : Code T ι σ ε α) Q X e := h

theorem throw {x : ε} {Q : α → E → Prop} (h : X e) :
    Code.Typed R (MonadExcept.throw x : Code T ι σ ε α) Q X e := h

theorem act {f : T → ι → σ → Option (β × σ)} {Q : β → E → Prop} (hf : R f e e')
    (hQ : ∀ b, Q b e') : Code.Typed R (Code.act f : Code T ι σ ε β) Q X e :=
  ⟨e', hf, hQ⟩

theorem bind {x : Code T ι σ ε α} {g : α → Code T ι σ ε β} {Q : β → E → Prop}
    (h : Code.Typed R x (fun a => Code.Typed R (g a) Q X) X e) : Code.Typed R (x >>= g) Q X e := by
  apply Prog.Typed.bind
  apply Prog.Typed.mono h
  intro r e' hr
  cases r <;> exact hr

/-- An action, and what comes after it. -/
theorem act_bind {f : T → ι → σ → Option (β × σ)} {g : β → Code T ι σ ε α} {Q : α → E → Prop}
    (hf : R f e e') (hg : ∀ b, Code.Typed R (g b) Q X e') :
    Code.Typed R (Code.act f >>= g) Q X e :=
  bind (act hf hg)

theorem attempt {x : Code T ι σ ε α} {Q : Except ε α → E → Prop}
    (h : Code.Typed R x (fun a => Q (.ok a)) (fun e' => ∀ y, Q (.error y) e') e) :
    Code.Typed R (Code.attempt x) Q X e := by
  apply Prog.Typed.bind
  apply Prog.Typed.mono h
  intro r e' hr
  cases r with
  | error y => exact hr y
  | ok a => exact hr

theorem orExit {x : Code T ι σ ε α} {Q : E → Prop} (h : Code.Typed R x (fun _ => Q) (fun _ => True) e) :
    x.orExit.Typed R (fun _ => Q) e := by
  apply Prog.Typed.bind
  apply Prog.Typed.mono h
  intro r e' hr
  cases r with
  | error y => trivial
  | ok a => exact hr

end Code.Typed

end Nngpp.Lib
