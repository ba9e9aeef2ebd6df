import Nngpp.Core
import Nngpp.Lib.Alone

/-!
Calls of nng in the programs of threads.

`checked` and `made` are the two shapes of a wrapper: a call that answers with a
code, and one that hands something over. Both throw the code of a failure, with
the name of the nng function. Their rules split a proof into the two ways in
which the call can end.
-/

namespace Nngpp

open Lib

variable {T ι σ W α : Type}

/-- `int r = f(…); if( r != 0 ) throw exception(r,source);`. -/
def checked (f : T → ι → σ → Option (Error × σ)) (source : String) :
    Code T ι σ Exception Unit := do
  let r ← Code.act f
  if r ≠ .success then throw ⟨r, source⟩

/-- The same for a function with an output. -/
def made (f : T → ι → σ → Option (Answer α × σ)) (source : String) : Code T ι σ Exception α := do
  match (← Code.act f) with
  | .ok a => return a
  | .error e => throw ⟨e.val, source⟩

/-! ### Rules -/

section Rules

variable {L : Logic T σ W} {t : T} {w : W} {E : Exception → W → Prop} {source : String}

theorem ok_checked {f : T → ι → σ → Option (Error × σ)} {Q : Unit → W → Prop}
    (h : L.Spec t f w fun e w' => if e = .success then Q () w' else E ⟨e, source⟩ w') :
    L.Ok t (checked f source) Q E w := by
  apply Logic.Ok.bind
  apply Logic.Ok.act
  apply Logic.Spec.mono h
  intro e w' hw'
  by_cases he : e = .success
  · rw [if_pos he] at hw'
    rw [if_neg (not_not.mpr he)]
    exact Logic.Ok.pure hw'
  · rw [if_neg he] at hw'
    rw [if_pos he]
    exact Logic.Ok.throw hw'

theorem ok_made {f : T → ι → σ → Option (Answer α × σ)} {Q : α → W → Prop}
    (h : L.Spec t f w fun r w' => match r with
      | .ok a => Q a w'
      | .error e => E ⟨e.val, source⟩ w') : L.Ok t (made f source) Q E w := by
  apply Logic.Ok.bind
  apply Logic.Ok.act
  apply Logic.Spec.mono h
  intro r w' hw'
  cases r with
  | error e => exact Logic.Ok.throw hw'
  | ok a => exact Logic.Ok.pure hw'

variable {A : ∀ {β : Type}, (T → ι → σ → Option (β × σ)) → Prop}

theorem all_checked {f : T → ι → σ → Option (Error × σ)} (hf : A f) :
    (checked f source).run.All A := by
  apply Prog.All.bind_code (Prog.All.act_code hf)
  intro r
  by_cases hr : r = .success
  · rw [if_neg (not_not.mpr hr)]
    trivial
  · rw [if_pos hr]
    trivial

theorem all_made {f : T → ι → σ → Option (Answer α × σ)} (hf : A f) :
    (made f source).run.All A := by
  apply Prog.All.bind_code (Prog.All.act_code hf)
  intro r
  cases r <;> trivial

/-! ### Calls that succeed -/

theorem yields_checked {f : T → ι → σ → Option (Error × σ)} {t : T} {i : ι} {s s' : σ}
    (hf : f t i s = some (.success, s')) :
    Code.Yields t i s (checked f source) () s' := by
  apply Code.Yields.bind (Code.Yields.act hf)
  exact Code.Yields.pure ()

theorem yields_made {f : T → ι → σ → Option (Answer α × σ)} {t : T} {i : ι} {s s' : σ} {a : α}
    (hf : f t i s = some (.ok a, s')) : Code.Yields t i s (made f source) a s' := by
  apply Code.Yields.bind (Code.Yields.act hf)
  exact Code.Yields.pure a

end Rules

end Nngpp
