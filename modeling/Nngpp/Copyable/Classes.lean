import Nngpp.Copyable.Safety
import Nngpp.Msg.Calls

/-!
The classes `msg` and `url`, and the programs that use them.

The two classes differ in what a program can do with an object besides passing
it on: a message is sent, put in an aio, and edited through its header and its
body, a URL is only read. A `Class` has these members, each with the proof that
it concerns one object: the others and their handles stay as they are, and the
object keeps its handle or is left null. So they keep the objects sound whatever
they do (`sound_act`), and show in no other object (`shown_member`).
-/

namespace Nngpp.Copyable

open Function Lib

variable {O H C X : Type}

/-! ### Classes -/

/-- Nothing happens but to the object `this` and to the contents of its handle,
and nothing dies. -/
structure Local (this : O) (w w' : World O H C) : Prop where
  others : ∀ o, o ≠ this → w'.obj o = w.obj o
  keeps : w'.obj this = w.obj this ∨ w'.obj this = some none
  heap : ∀ h, Pointer.get w.obj this ≠ some h → w'.heap h = w.heap h
  live : ∀ h, w'.heap h = none ↔ w.heap h = none
  faults : w'.faults = w.faults

theorem Local.refl (this : O) (w : World O H C) : Local this w w :=
  ⟨fun _ _ => rfl, .inl rfl, fun _ _ => rfl, fun _ => .rfl, rfl⟩

/-- A copyable class: the names in its exceptions, and the members `X` that it has
beside those of every handle class. -/
structure Class (O H C X : Type) where
  names : Names
  /-- What the pointer has to be when the member is called. -/
  allowed : X → Option H → Prop
  member : X → O → Call O H C Unit
  isLocal : ∀ x this w, w.obj this ≠ none → allowed x (Pointer.get w.obj this) →
    Local this w (leaves (member x this) w)

/-! ### Messages -/

variable [DecidableEq O] [DecidableEq H]

/-- The members that take the message from the object, and those that work on its
bytes. -/
inductive MsgMember
  | send (r : Error)
  | setMsg
  | via (r : Msg.Region) (op : Msg.Op)
  | realloc (size : ℕ) (fill : ℕ → UInt8) (fails : Option Failure)

namespace MsgMember

/-- A function on the bytes of nng's messages. -/
def onBytes {α : Type} (x : Msg.Call H α) : Call O H Msg.Message α :=
  within (fun w => Msg.bytesOf w.heap) (fun w s => { w with heap := Msg.putBytes w.heap s }) x

/-- A call through a `msg_view` of the object; what it returns is not used here. -/
def viaHandle (this : O) (f : H → Msg.Call H Msg.Ret) : Call O H Msg.Message Unit := do
  if let some h := Pointer.get (← get).obj this then
    let _ ← onBytes (f h)

/-- `socket.send(std::move(this))`: `m.release()` once nng has taken the message.
`aio.set_msg(std::move(this))`: `set_msg(m.release())`. -/
def call (this : O) : MsgMember → Call O H Msg.Message Unit
  | send r => do
      check r "nng_sendmsg"
      let _ ← release this
  | setMsg => do let _ ← release this
  | via r op => viaHandle this fun h => Msg.Accessor.call ⟨r, h⟩ op
  | realloc size fill fails =>
      viaHandle this fun h => Msg.done (Msg.MsgView.realloc h size fill fails)

/-- nng takes messages, and edits them; a null pointer it can at most refuse. -/
def Allowed : MsgMember → Option H → Prop
  | send r, p => r = .success → p ≠ none
  | setMsg, _ => True
  | via _ _, p => p ≠ none
  | realloc _ _ _, p => p ≠ none

omit [DecidableEq H] in
/-- An object that lets go of its handle. -/
theorem local_release {this : O} {w : World O H C} :
    Local this w { w with obj := (Pointer.release w.obj this).1 } where
  others _ ho := update_of_ne ho _ w.obj
  keeps := .inr (update_self this _ w.obj)
  heap _ _ := rfl
  live _ := .rfl
  faults := rfl

omit [DecidableEq O] [DecidableEq H] in
/-- A call through the handle of the object which leaves the other messages alone. -/
theorem local_viaHandle {this : O} {w : World O H Msg.Message} {f : H → Msg.Call H Msg.Ret}
    (hf : ∀ h g s, g ≠ h → leaves (f h) s g = s g) :
    Local this w (leaves (viaHandle this f) w) := by
  cases hp : Pointer.get w.obj this with
  | none =>
      have hrun : (viaHandle this f).run w = .ok () w := by simp [viaHandle, hp]
      rw [leaves_of_ok hrun]
      exact Local.refl this w
  | some h =>
      have hleaves : leaves (viaHandle this f) w =
          { w with heap := Msg.putBytes w.heap (leaves (f h) (Msg.bytesOf w.heap)) } := by
        have hwithin : leaves (onBytes (O := O) (f h)) w =
            { w with heap := Msg.putBytes w.heap (leaves (f h) (Msg.bytesOf w.heap)) } :=
          leaves_within
        rw [← hwithin]
        simp only [viaHandle, leaves, EStateM.run_bind, EStateM.run_get, hp]
        cases (onBytes (O := O) (f h)).run w <;> rfl
      rw [hleaves]
      refine ⟨fun _ _ => rfl, .inl rfl, ?_, ?_, rfl⟩
      · intro g hg
        have hne : g ≠ h := by rintro rfl; exact hg hp
        show (w.heap g).map (fun _ => leaves (f h) (Msg.bytesOf w.heap) g) = w.heap g
        rw [hf h g _ hne]
        cases hgh : w.heap g <;> simp [Msg.bytesOf, hgh]
      · intro g
        exact Option.map_eq_none_iff

theorem isLocal (x : MsgMember) (this : O) (w : World O H Msg.Message) :
    Local this w (leaves (x.call this) w) := by
  cases x with
  | send r =>
      rcases eq_or_ne r .success with rfl | hr
      · have hrun : (call this (send .success)).run w =
            .ok () { w with obj := (Pointer.release w.obj this).1 } := rfl
        rw [leaves_of_ok hrun]
        exact local_release
      · have hrun : (call this (send r)).run w = .error ⟨r, "nng_sendmsg"⟩ w :=
          run_bind_of_error (run_check_of_ne hr _ w) _
        rw [leaves_of_error hrun]
        exact Local.refl this w
  | setMsg =>
      have hrun : (call this setMsg).run w =
          .ok () { w with obj := (Pointer.release w.obj this).1 } := rfl
      rw [leaves_of_ok hrun]
      exact local_release
  | via r op =>
      apply local_viaHandle
      intro h g s hg
      exact Msg.leaves_outcome_of_ne (Msg.Accessor.run_call ⟨r, h⟩ op s) hg
  | realloc size fill fails =>
      apply local_viaHandle
      intro h g s hg
      have hrun := Msg.run_done
        (Msg.run_nngPut .body "nng_msg_realloc" h s (Msg.resize size fill) fails)
      exact Msg.leaves_outcome_of_ne hrun hg

end MsgMember

/-- `nng::msg`. -/
def msgClass : Class O H Msg.Message MsgMember where
  names := msgNames
  allowed := MsgMember.Allowed
  member x this := x.call this
  isLocal x this w _ _ := x.isLocal this w

/-- `nng::url`, whatever is kept of a parsed URL beside its raw text. -/
def urlClass : Class O H C Empty where
  names := urlNames
  allowed := nofun
  member := nofun
  isLocal := nofun

/-! ### Programs -/

/-- What a program does with the objects of a class. -/
inductive Act (O H C X : Type)
  | op (o : Op O H C)
  | member (this : O) (x : X)

/-- nng grants the copies it is asked for. -/
def Op.Granted : Op O H C → Prop
  | .copyCtor _ _ ans | .copyAssign _ _ ans => ∃ h, ans = .ok h
  | _ => True

namespace Class

variable (K : Class O H C X)

def Enabled (w : World O H C) : Act O H C X → Prop
  | .op o => Copyable.Enabled w o ∧ o.Granted
  | .member this x => w.obj this ≠ none ∧ K.allowed x (Pointer.get w.obj this)

def exec (w : World O H C) : Act O H C X → World O H C
  | .op o => Copyable.exec K.names w o
  | .member this x => leaves (K.member x this) w

def Step (w : World O H C) (a : Act O H C X) (w' : World O H C) : Prop :=
  K.Enabled w a ∧ w' = K.exec w a

/-- What a program can reach when nng grants every copy of a live handle. -/
def Reachable (w : World O H C) : Prop := ∃ heap tr, Run K.Step (World.init heap) tr w

end Class

/-! ### Soundness -/

section Soundness

variable {w w' : World O H C}

omit [DecidableEq O] [DecidableEq H] in
/-- What is live stays live, and no object gets a handle it had not. -/
theorem Sound.mono (hw : Sound w)
    (hobj : ∀ o h, Pointer.get w'.obj o = some h → Pointer.get w.obj o = some h)
    (hlive : ∀ h, w'.heap h = none → w.heap h = none) (hfaults : w'.faults = w.faults) :
    Sound w' := by
  have hcustody := hw.custody.mono hobj
  refine ⟨⟨fun _ _ _ hp hq => hcustody.exclusive hp hq, ?_⟩, hfaults.trans hw.noFault⟩
  intro o h ho hdead
  exact hcustody.live ho (hlive h hdead)

omit [DecidableEq O] [DecidableEq H] in
theorem Local.sound {this : O} (h : Local this w w') (hw : Sound w) : Sound w' := by
  refine hw.mono ?_ (fun g => (h.live g).mp) h.faults
  intro o g ho
  rcases eq_or_ne o this with rfl | hne
  · obtain hkeep | hnull := h.keeps
    · rwa [Pointer.get, ← hkeep]
    · simp [Pointer.get, hnull] at ho
  · rwa [Pointer.get, ← h.others o hne]

variable (K : Class O H C X)

/-- Whatever a program does, the objects stay sound: nng refuses no copy. -/
theorem sound_act (hw : Sound w) (a : Act O H C X) (ha : K.Enabled w a) : Sound (K.exec w a) := by
  cases a with
  | op o =>
      apply (sound_step K.names hw ha.1).mpr
      intro hfails
      cases o with
      | copyAssign this rhs ans =>
          obtain ⟨h, rfl⟩ := ha.2
          exact hfails
      | _ => exact hfails
  | member this x => exact (K.isLocal x this w ha.1 ha.2).sound hw

theorem Class.Reachable.sound (hw : K.Reachable w) : Sound w := by
  obtain ⟨heap, tr, run⟩ := hw
  refine run.invariant (sound_init heap) ?_
  rintro w a _ hw ⟨ha, rfl⟩
  exact sound_act K hw a ha

/-- What a program sees of an object: its pointer, and what is there. -/
def World.shown (w : World O H C) (o : O) : Option H × Option C :=
  (Pointer.get w.obj o, (Pointer.get w.obj o).bind w.heap)

/-- A member of one object does not show in another. -/
theorem shown_member (hw : Sound w) {this : O} {x : X} (ha : K.Enabled w (.member this x)) {q : O}
    (hq : q ≠ this) : (K.exec w (.member this x)).shown q = w.shown q := by
  have hlocal := K.isLocal x this w ha.1 ha.2
  have hget : Pointer.get (leaves (K.member x this) w).obj q = Pointer.get w.obj q := by
    rw [Pointer.get, hlocal.others q hq, Pointer.get]
  show World.shown (leaves (K.member x this) w) q = _
  rw [World.shown, World.shown, hget]
  cases hp : Pointer.get w.obj q with
  | none => rfl
  | some h =>
      have hthis : Pointer.get w.obj this ≠ some h :=
        hw.custody.not_held_elsewhere hp (Ne.symm hq)
      rw [Option.bind_some, Option.bind_some, hlocal.heap h hthis]

/-- As long as only members of other objects are called, an object shows what it
showed. -/
theorem shown_run (hw : Sound w) {tr : List (Transition (World O H C) (Act O H C X))}
    (run : Run K.Step w tr w') {q : O}
    (hq : ∀ e ∈ tr, ∃ this x, e.label = .member this x ∧ q ≠ this) :
    w'.shown q = w.shown q := by
  have hboth : Sound w' ∧ w'.shown q = w.shown q := by
    refine run.guarded (I := fun v => Sound v ∧ v.shown q = w.shown q) ?_ ?_ hq
    · exact ⟨hw, rfl⟩
    · rintro v _ _ ⟨hv, hshown⟩ ⟨ha, rfl⟩ ⟨this, x, rfl, hne⟩
      exact ⟨sound_act K hv _ ha, (shown_member K hv ha hne).trans hshown⟩
  exact hboth.2

end Soundness

end Nngpp.Copyable
