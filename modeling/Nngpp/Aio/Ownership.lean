import Nngpp.Aio.Model
import Nngpp.Lib.Custody

/-!
Where the messages are.

A live message is in an object, in the slot of an aio, or with an endpoint that
has taken it, and never at two of these places. The slots are why it can also be
nowhere: what is in a slot is overwritten by `set_msg`, overwritten by a
successful receive, or forgotten together with the aio. The books of a world are
a ledger in which the messages that were lost in these ways are somebody else's,
so a step that keeps the books loses just what it writes down.
-/

namespace Nngpp.Aio

open Function Lib

variable {O M B A : Type}

/-- Where a message can be. -/
inductive Place (O A : Type)
  | object (o : O)
  | slot (a : A)
  | nng (x : Endpoint)

def World.At (w : World O M B A) : Place O A → M → Prop
  | .object o, m => Pointer.get w.msg o = some m
  | .slot a, m => w.slot a = some m
  | .nng x, m => w.taken m = some x

/-- Live, and at no place. -/
def World.Stray (w : World O M B A) (m : M) : Prop := w.heap m ≠ none ∧ ∀ p, ¬ w.At p m

/-- The message that a step makes the program lose. -/
def lost [DecidableEq B] (w : World O M B A) : Op O M B A → Option M
  | .setMsg a _ => w.slot a
  | .recvDone _ a (.ok _) => w.slot a
  | .aioMoveAssign this rhs =>
      if this ≠ rhs then (Pointer.get w.aio this).bind w.slot else none
  | .aioDestroy this => (Pointer.get w.aio this).bind w.slot
  | _ => none

/-- The places of the application as one table. -/
def held (msg : Pointer.Table O M) (slot : A → Option M) : O ⊕ A → Option M :=
  Sum.elim (Pointer.get msg) slot

abbrev World.held (w : World O M B A) : O ⊕ A → Option M := Aio.held w.msg w.slot

/-- Every live message is at one place of the application, taken, or gone, and
every aio that an object holds is live and its own. -/
structure Books (w : World O M B A) (gone : M → Bool) : Prop where
  messages : Entrusted w.held w.taken gone w.heap
  aios : Custody (Pointer.get w.aio) w.cell
  msgFaults : w.msgFaults = []
  aioFaults : w.aioFaults = []

/-! ### The slots and the objects as one table -/

section Held

variable [DecidableEq A]

theorem slot_setOp (w : World O M B A) (a : A) (op : Option Pending) :
    (w.setOp a op).slot = w.slot := by
  ext b : 1
  rcases eq_or_ne b a with rfl | h
  · simp only [World.slot, World.setOp, update_self]
    cases w.cell b <;> rfl
  · simp [World.slot, World.setOp, h]

theorem slot_setSlot {w : World O M B A} {a : A} (ha : w.cell a ≠ none) (m : Option M) :
    (w.setSlot a m).slot = update w.slot a m := by
  obtain ⟨c, hc⟩ := Option.ne_none_iff_exists'.mp ha
  ext b : 1
  rcases eq_or_ne b a with rfl | h
  · simp [World.slot, World.setSlot, hc]
  · simp [World.slot, World.setSlot, h]

variable [DecidableEq O]

theorem held_update_slot (msg : Pointer.Table O M) (slot : A → Option M) (a : A) (m : Option M) :
    held msg (update slot a m) = update (held msg slot) (.inr a) m :=
  Sum.update_elim_inr.symm

theorem held_update_msg (msg : Pointer.Table O M) (slot : A → Option M) (o : O)
    (x : Option (Option M)) :
    held (update msg o x) slot = update (held msg slot) (.inl o) x.join := by
  rw [held, Pointer.get_update]
  exact Sum.update_elim_inl.symm

end Held

/-! ### What the books say -/

namespace Books

variable {w : World O M B A} {gone : M → Bool}

theorem heap_ne_none (h : Books w gone) {p : Place O A} {m : M} (hm : w.At p m) :
    w.heap m ≠ none := by
  cases p with
  | object o => exact h.messages.live (show w.held (.inl o) = some m from hm)
  | slot a => exact h.messages.live (show w.held (.inr a) = some m from hm)
  | nng x =>
      apply h.messages.own_live
      have hm : w.taken m = some x := hm
      simp [elsewhere, hm]

/-- No message is at two places. -/
theorem at_unique (h : Books w gone) {p q : Place O A} {m : M} (hp : w.At p m) (hq : w.At q m) :
    p = q := by
  have hsame : ∀ p q : O ⊕ A, w.held p = some m → w.held q = some m → p = q :=
    fun p q hp hq => h.messages.exclusive hp hq
  have hnot : ∀ (p : O ⊕ A) (x : Endpoint), w.held p = some m → w.taken m ≠ some x := by
    intro p x hp
    rw [h.messages.taken_of_held hp]
    exact nofun
  cases p with
  | object o =>
      cases q with
      | object o' => cases hsame (.inl o) (.inl o') hp hq; rfl
      | slot a => cases hsame (.inl o) (.inr a) hp hq
      | nng x => exact absurd hq (hnot (.inl o) x hp)
  | slot a =>
      cases q with
      | object o => cases hsame (.inr a) (.inl o) hp hq
      | slot a' => cases hsame (.inr a) (.inr a') hp hq; rfl
      | nng x => exact absurd hq (hnot (.inr a) x hp)
  | nng x =>
      cases q with
      | object o => exact absurd hp (hnot (.inl o) x hq)
      | slot a => exact absurd hp (hnot (.inr a) x hq)
      | nng y => cases hp.symm.trans hq; rfl

/-- What is gone is just what is live and at no place. -/
theorem stray_iff (h : Books w gone) {m : M} : w.Stray m ↔ gone m = true := by
  rw [h.messages.gone_iff]
  constructor
  · rintro ⟨hlive, hnowhere⟩
    refine ⟨hlive, ?_, ?_⟩
    · rintro (o | a) hp
      · exact hnowhere (.object o) hp
      · exact hnowhere (.slot a) hp
    · by_contra htaken
      obtain ⟨x, hx⟩ := Option.ne_none_iff_exists'.mp htaken
      exact hnowhere (.nng x) hx
  · rintro ⟨hlive, hheld, htaken⟩
    refine ⟨hlive, fun p hp => ?_⟩
    cases p with
    | object o => exact hheld (.inl o) hp
    | slot a => exact hheld (.inr a) hp
    | nng x => cases htaken.symm.trans hp

/-! ### What the functions of nng do to the books -/

section Messages

variable [DecidableEq M]

theorem dispose (h : Books w gone) {m : M} (hm : w.taken m ≠ none) :
    Books (w.dispose m) gone where
  messages := h.messages.dispose hm
  aios := h.aios
  msgFaults := h.msgFaults
  aioFaults := h.aioFaults

/-- What an object frees is live. -/
theorem freeMsg_eq (h : Books w gone) (o : O) (t : Pointer.Table O M) :
    World.freeMsg { w with msg := t } (Pointer.get w.msg o) =
      { w with msg := t, heap := without w.heap (Pointer.get w.msg o) } := by
  cases hm : Pointer.get w.msg o with
  | none => rfl
  | some m =>
      have hlive : w.heap m ≠ none := h.heap_ne_none (p := .object o) hm
      simp [World.freeMsg, hlive, without]

end Messages

section Nng

variable [DecidableEq A]

theorem setOp (h : Books w gone) (a : A) (op : Option Pending) : Books (w.setOp a op) gone where
  messages := by
    rw [World.held, slot_setOp]
    exact h.messages
  aios := h.aios.modify a _
  msgFaults := h.msgFaults
  aioFaults := h.aioFaults

variable [DecidableEq O]

/-- The message of an object goes into an empty slot. -/
theorem object_to_slot (h : Books w gone) {a : A} (ha : w.cell a ≠ none) (hslot : w.slot a = none)
    (o : O) :
    Books (World.setSlot { w with msg := update w.msg o (some none) } a (Pointer.get w.msg o))
      gone where
  messages := by
    have hmove := h.messages.move (p := .inr a) (q := .inl o) nofun hslot
    show Entrusted (held (update w.msg o (some none)) (w.setSlot a (Pointer.get w.msg o)).slot)
      _ _ _
    rw [slot_setSlot ha, held_update_msg, held_update_slot]
    exact hmove
  aios := h.aios.modify a _
  msgFaults := h.msgFaults
  aioFaults := h.aioFaults

/-- The message in a slot goes into an object that holds none. -/
theorem slot_to_object (h : Books w gone) {a : A} (ha : w.cell a ≠ none) {o : O}
    (ho : Pointer.get w.msg o = none) :
    Books { w.setSlot a none with msg := update w.msg o (some (w.slot a)) } gone where
  messages := by
    have hmove := h.messages.move (p := .inl o) (q := .inr a) nofun ho
    show Entrusted (held (update w.msg o (some (w.slot a))) (w.setSlot a none).slot) _ _ _
    rw [slot_setSlot ha, held_update_slot, held_update_msg]
    exact hmove
  aios := h.aios.modify a _
  msgFaults := h.msgFaults
  aioFaults := h.aioFaults

variable [DecidableEq M]

/-- The slot of an aio is emptied, and what was in it is gone. -/
theorem empty_slot (h : Books w gone) {a : A} (ha : w.cell a ≠ none) :
    Books (w.setSlot a none) (lose gone (w.slot a)) where
  messages := by
    rw [World.held, slot_setSlot ha, held_update_slot]
    exact h.messages.forget (.inr a)
  aios := h.aios.modify a _
  msgFaults := h.msgFaults
  aioFaults := h.aioFaults

/-- nng takes the message in a slot. -/
theorem slot_to_nng (h : Books w gone) {a : A} {m : M} (hm : w.slot a = some m) (x : Endpoint) :
    Books { w.setSlot a none with taken := update w.taken m (some x) } gone where
  messages := by
    have ha : w.cell a ≠ none := by
      intro hcell
      simp [World.slot, hcell] at hm
    show Entrusted (held w.msg (w.setSlot a none).slot) (update w.taken m (some x)) gone w.heap
    rw [slot_setSlot ha, held_update_slot]
    exact h.messages.handOver (p := .inr a) hm x
  aios := h.aios.modify a _
  msgFaults := h.msgFaults
  aioFaults := h.aioFaults

/-- nng puts a message into an empty slot, a new one or one that it had taken. -/
theorem nng_to_slot (h : Books w gone) {a : A} (ha : w.cell a ≠ none) (hslot : w.slot a = none)
    {m : M} (hm : w.heap m = none ∨ w.taken m ≠ none) :
    Books { w.setSlot a (some m) with
      heap := update w.heap m (some ())
      taken := update w.taken m none } gone where
  messages := by
    show Entrusted (held w.msg (w.setSlot a (some m)).slot) (update w.taken m none) gone
      (update w.heap m (some ()))
    rw [slot_setSlot ha, held_update_slot]
    exact h.messages.deliver (p := .inr a) hslot hm ()
  aios := h.aios.modify a _
  msgFaults := h.msgFaults
  aioFaults := h.aioFaults

end Nng

/-! ### What the members of the two classes do to the books -/

section Objects

variable [DecidableEq O]

/-- An object that holds nothing may be made or unmade. -/
theorem object_none (h : Books w gone) {o : O} (ho : Pointer.get w.msg o = none)
    {x : Option (Option M)} (hx : x.join = none) :
    Books { w with msg := update w.msg o x } gone where
  messages := by
    have hsame : Pointer.get (update w.msg o x) = Pointer.get w.msg := by
      rw [Pointer.get_update, hx, update_eq_self_iff]
      exact ho.symm
    show Entrusted (Sum.elim (Pointer.get (update w.msg o x)) w.slot) _ _ _
    rw [hsame]
    exact h.messages
  aios := h.aios
  msgFaults := h.msgFaults
  aioFaults := h.aioFaults

variable [DecidableEq A]

theorem object_move (h : Books w gone) {this rhs : O} (hne : this ≠ rhs)
    (hthis : Pointer.get w.msg this = none) :
    Books { w with
      msg := update (update w.msg this (some (Pointer.get w.msg rhs))) rhs (some none) } gone where
  messages := by
    show Entrusted (held (update (update w.msg this (some (Pointer.get w.msg rhs))) rhs (some none))
      w.slot) _ _ _
    rw [held_update_msg, held_update_msg]
    exact h.messages.move (p := .inl this) (q := .inl rhs) (by simpa using hne) hthis
  aios := h.aios
  msgFaults := h.msgFaults
  aioFaults := h.aioFaults

variable [DecidableEq M]

theorem object_fresh (h : Books w gone) {o : O} (ho : Pointer.get w.msg o = none) {m : M}
    (hm : w.heap m = none) :
    Books { w with heap := update w.heap m (some ()), msg := update w.msg o (some (some m)) }
      gone where
  messages := by
    show Entrusted (held (update w.msg o (some (some m))) w.slot) _ _ (update w.heap m (some ()))
    rw [held_update_msg]
    exact h.messages.take_fresh (p := .inl o) ho hm ()
  aios := h.aios
  msgFaults := h.msgFaults
  aioFaults := h.aioFaults

/-- An object gives up the message that it holds. -/
theorem object_retire (h : Books w gone) (o : O) {x : Option (Option M)} (hx : x.join = none) :
    Books { w with msg := update w.msg o x, heap := without w.heap (Pointer.get w.msg o) }
      gone where
  messages := by
    show Entrusted (held (update w.msg o x) w.slot) _ _ (without w.heap (Pointer.get w.msg o))
    rw [held_update_msg, hx]
    exact h.messages.retire (.inl o)
  aios := h.aios
  msgFaults := h.msgFaults
  aioFaults := h.aioFaults

theorem leaves_msgMoveAssign (h : Books w gone) (this rhs : O) :
    Books (leaves (msgMoveAssign this rhs) w) gone := by
  rcases eq_or_ne this rhs with rfl | hne
  · have hself : leaves (msgMoveAssign this this) w = w := by
      simp [leaves, msgMoveAssign, World.freeMsg]
    rwa [hself]
  · have hmoved := (h.object_retire this (x := some none) rfl).object_move hne (by simp)
    simp only [Pointer.get_update, update_idem, update_of_ne hne.symm] at hmoved
    have hleaves : leaves (msgMoveAssign this rhs) w =
        World.freeMsg { w with
          msg := update (update w.msg this (some (Pointer.get w.msg rhs))) rhs (some none) }
          (Pointer.get w.msg this) := by
      simp [leaves, msgMoveAssign, Pointer.moveAssign_of_ne w.msg hne]
    rwa [hleaves, h.freeMsg_eq]

end Objects

section Aios

/-- The objects of `nng::aio` change hands among themselves. -/
theorem aio_table (h : Books w gone) {t : Pointer.Table B A}
    (ht : Custody (Pointer.get t) w.cell) : Books { w with aio := t } gone where
  messages := h.messages
  aios := ht
  msgFaults := h.msgFaults
  aioFaults := h.aioFaults

variable [DecidableEq A]

/-- What an object frees is live. -/
theorem freeAio_eq (h : Books w gone) (this : B) (t : Pointer.Table B A) :
    World.freeAio { w with aio := t } (Pointer.get w.aio this) =
      { w with aio := t, cell := without w.cell (Pointer.get w.aio this) } := by
  cases ha : Pointer.get w.aio this with
  | none => rfl
  | some a =>
      have hlive : w.cell a ≠ none := h.aios.live ha
      simp [World.freeAio, hlive, without]

theorem aio_fresh [DecidableEq B] (h : Books w gone) {a : A} (ha : w.cell a = none) (this : B) :
    Books { w with
      cell := update w.cell a (some ⟨none, none⟩)
      aio := Pointer.adopt w.aio this (some a) } gone where
  messages := by
    have hslot : World.slot { w with cell := update w.cell a (some ⟨none, none⟩) } = w.slot := by
      ext b : 1
      rcases eq_or_ne b a with rfl | hb
      · simp [World.slot, ha]
      · simp [World.slot, hb]
    show Entrusted
      (held w.msg (World.slot { w with cell := update w.cell a (some ⟨none, none⟩) })) _ _ _
    rw [hslot]
    exact h.messages
  aios := by
    show Custody (Pointer.get (Pointer.adopt w.aio this (some a)))
      (update w.cell a (some ⟨none, none⟩))
    rw [Pointer.adopt, Pointer.get_update]
    exact h.aios.take_fresh ha _
  msgFaults := h.msgFaults
  aioFaults := h.aioFaults

variable [DecidableEq M] [DecidableEq O]

/-- An aio is freed, and what is in its slot is gone. -/
theorem aio_retire (h : Books w gone) {t : Pointer.Table B A} (p : Option A)
    (ht : Custody (Pointer.get t) (without w.cell p)) :
    Books { w with aio := t, cell := without w.cell p } (lose gone (p.bind w.slot)) where
  messages := by
    cases p with
    | none =>
        rw [Option.bind_none, Entrusted.lose_none]
        exact h.messages
    | some a =>
        have hslot : World.slot { w with cell := without w.cell (some a) } =
            update w.slot a none := by
          ext b : 1
          rcases eq_or_ne b a with rfl | hb
          · simp [World.slot, without]
          · simp [World.slot, without, hb]
        show Entrusted (held w.msg (World.slot { w with cell := without w.cell (some a) })) _ _ _
        rw [hslot, held_update_slot]
        exact h.messages.forget (.inr a)
  aios := ht
  msgFaults := h.msgFaults
  aioFaults := h.aioFaults

end Aios

end Books

end Nngpp.Aio
