import Nngpp.Lib.Prog

/-!
Objects with destructors, and `main`, in programs that throw.

`within` is the scope of an object, whose destructor runs however the scope is
left; `unwinding` is the scope of one that outlives it when nothing is thrown. The
rule of each asks for the contract of the destructor at every way out.
-/

namespace Nngpp.Lib

variable {T ι σ W ε α β : Type}

namespace Code

/-- `{ T object; … }`, where `f` is the destructor. -/
def within (f : T → ι → σ → Option (Unit × σ)) (x : Code T ι σ ε α) : Code T ι σ ε α := do
  let r ← attempt x
  act f
  match r with
  | .ok a => return a
  | .error e => throw e

/-- A part of the scope of an object: its destructor `f` runs if something is
thrown. -/
def unwinding (f : T → ι → σ → Option (Unit × σ)) (x : Code T ι σ ε α) : Code T ι σ ε α := do
  match (← attempt x) with
  | .ok a => return a
  | .error e => do
      act f
      throw e

/-- `try { x … } catch( e ) { … }`, at the end of a program. -/
def handle (x : Code T ι σ ε α) (done : α → Prog T ι σ β) (handler : ε → Prog T ι σ β) :
    Prog T ι σ β := do
  match (← x.run) with
  | .ok a => done a
  | .error e => handler e

end Code

namespace Logic

variable {L : Logic T σ W} {t : T} {w : W} {x : Code T ι σ ε α}
  {f : T → ι → σ → Option (Unit × σ)} {Q : α → W → Prop} {E : ε → W → Prop}

theorem Ok.within
    (h : L.Ok t x (fun a w' => L.Spec t f w' fun _ => Q a)
      (fun e w' => L.Spec t f w' fun _ => E e) w) :
    L.Ok t (x.within f) Q E w := by
  apply Ok.bind
  apply Ok.attempt
  apply Safe.mono h
  intro r w' hw'
  cases r with
  | error e => exact Ok.bind (Ok.act (hw'.mono fun _ _ he => Ok.throw he))
  | ok a => exact Ok.bind (Ok.act (hw'.mono fun _ _ ha => Ok.pure ha))

theorem Ok.unwinding (h : L.Ok t x Q (fun e w' => L.Spec t f w' fun _ => E e) w) :
    L.Ok t (x.unwinding f) Q E w := by
  apply Ok.bind
  apply Ok.attempt
  apply Safe.mono h
  intro r w' hw'
  cases r with
  | error e => exact Ok.bind (Ok.act (hw'.mono fun _ _ he => Ok.throw he))
  | ok a => exact Ok.pure hw'

theorem Ok.handle {done : α → Prog T ι σ β} {handler : ε → Prog T ι σ β} {P : β → W → Prop}
    (h : L.Ok t x (fun a => L.Safe t (done a) P) (fun e => L.Safe t (handler e) P) w) :
    L.Safe t (x.handle done handler) P w := by
  apply Safe.bind
  apply Safe.mono h
  intro r w' hw'
  cases r with
  | error e => exact hw'
  | ok a => exact hw'

end Logic

end Nngpp.Lib
