import Nngpp.Async.Ownership

/-!
The contracts of the statements of `server_cb`.

Each statement touches the item that its invocation serves, its variable, and the
messages in them. `Shared.turn` is the shape that such a state has, and
`spec_turn` is the one proof that a statement of this shape keeps the invariant
and what the others see; the contracts say only what changes in the view. The
last statement of each branch gives the item up: it has to be left at rest
(`spec_start`).
-/

namespace Nngpp.Async

open Function Lib

variable {S : Server} {t : Tid} {i : WorkPtr} {s : Shared}

/-- A state in which an invocation has changed what it may. -/
def Shared.turn (s : Shared) (t : Tid) (i : WorkPtr) (x : Work) (p : Option MsgPtr)
    (heap : MsgPtr → Option Message) (h : List Event) (g : Option WorkPtr) : Shared :=
  { s with
    works := update s.works i x
    vars := update s.vars t p
    heap := heap
    history := update s.history i h
    serving := update s.serving t g }

section Turn

variable (x : Work) (p : Option MsgPtr) (heap : MsgPtr → Option Message) (h : List Event)
  (g : Option WorkPtr)

theorem held_turn {f : Place → Option MsgPtr} (hslot : f (.slot i) = x.aio.slot)
    (hmsg : f (.msg i) = x.msg) (hvar : f (.var t) = p)
    (hrest : ∀ q, q ≠ .slot i → q ≠ .msg i → q ≠ .var t → f q = held s q) :
    held (s.turn t i x p heap h g) = f := by
  ext q
  rcases q with j | j | u
  · rcases eq_or_ne j i with rfl | hj
    · simp [held, Shared.turn, hslot]
    · rw [hrest _ (by simp [hj]) (by simp) (by simp)]
      simp [held, Shared.turn, hj]
  · rcases eq_or_ne j i with rfl | hj
    · simp [held, Shared.turn, hmsg]
    · rw [hrest _ (by simp) (by simp [hj]) (by simp)]
      simp [held, Shared.turn, hj]
  · rcases eq_or_ne u t with rfl | hu
    · simp [held, Shared.turn, hvar]
    · rw [hrest _ (by simp) (by simp) (by simp [hu])]
      simp [held, Shared.turn, hu]

theorem itemOf_turn :
    itemOf (s.turn t i x p heap h g) i =
      ⟨x, s.launched i, h, x.aio.slot.bind heap, x.msg.bind heap⟩ := by
  simp [itemOf, Shared.turn]

theorem viewOf_turn :
    viewOf (s.turn t i x p heap h (some i)) t =
      ⟨some (i, ⟨x, s.launched i, h, x.aio.slot.bind heap, x.msg.bind heap⟩),
        p.map fun m => (m, heap m)⟩ := by
  simp [viewOf, itemOf, Shared.turn]

theorem frame_turn (ht : s.serving t = some i)
    (hheap : ∀ q m, q ≠ .slot i → q ≠ .msg i → q ≠ .var t → held s q = some m →
      heap m = s.heap m) : Frame t s (s.turn t i x p heap h g) where
  works j hj := by
    have hne : j ≠ i := by rintro rfl; exact hj ht
    simp [Shared.turn, hne]
  launched := rfl
  history j hj := by
    have hne : j ≠ i := by rintro rfl; exact hj ht
    simp [Shared.turn, hne]
  vars u hu := by simp [Shared.turn, hu]
  serving u hu := by simp [Shared.turn, hu]
  inItems j hj m hm := by
    have hne : j ≠ i := by rintro rfl; exact hj ht
    obtain hm | hm := hm
    · exact hheap (.slot j) m (by simp [hne]) (by simp) (by simp) hm
    · exact hheap (.msg j) m (by simp) (by simp [hne]) (by simp) hm
  inVars u hu m hm := hheap (.var u) m (by simp) (by simp) (by simp [hu]) hm

end Turn

/-- What an invocation that sees an item may assume. -/
theorem of_sees {k : Item} {p : Option (MsgPtr × Option Message)}
    (h : viewOf s t = ⟨some (i, k), p⟩) :
    s.serving t = some i ∧ itemOf s i = k ∧ (s.vars t).map (fun m => (m, s.heap m)) = p := by
  simp only [viewOf, View.mk.injEq, Option.map_eq_some_iff, Prod.mk.injEq] at h
  obtain ⟨⟨j, hj, rfl, hk⟩, hp⟩ := h
  exact ⟨hj, hk, hp⟩

theorem touch_of_serving (ht : s.serving t = some i) : s.touch t i = s := by
  simp [Shared.touch, ht]

/-- A statement that changes the item, the variable, or the bytes of their
messages, and goes on serving the item. -/
theorem spec_turn {β : Type} {f : Action β} {k : Item} {p : Option (MsgPtr × Option Message)}
    {P : β → View → Prop}
    (h : ∀ s, Inv S s → s.serving t = some i → itemOf s i = k →
      (s.vars t).map (fun m => (m, s.heap m)) = p → ∃ b x q heap,
        f t () s = some (b, s.turn t i x q heap (s.history i) (some i)) ∧ x.aio.ops = [] ∧
        (∀ q m, q ≠ .slot i → q ≠ .msg i → q ≠ .var t → held s q = some m → heap m = s.heap m) ∧
        Entrusted (held (s.turn t i x q heap (s.history i) (some i))) s.taken s.lost heap ∧
        P b ⟨some (i, ⟨x, k.launched, k.history, x.aio.slot.bind heap, x.msg.bind heap⟩),
          q.map fun m => (m, heap m)⟩) :
    (logic S).Spec t f ⟨some (i, k), p⟩ P := by
  intro s _ b s' hs hsees hf
  obtain ⟨ht, rfl, hvar⟩ := of_sees hsees
  obtain ⟨b', x, q, heap, hrun, hops, hheap, hcustody, hP⟩ := h s hs ht rfl hvar
  obtain ⟨rfl, rfl⟩ : b' = b ∧ s.turn t i x q heap (s.history i) (some i) = s' := by
    simpa [hrun] using hf
  have hframe := frame_turn x q heap (s.history i) (some i) ht hheap
  refine ⟨hframe.inv hs hcustody hs.kept hs.noFault ?_ ?_, hframe.frames hs, _,
    viewOf_turn .., hP⟩
  · intro hnone
    rw [ht] at hnone
    cases hnone
  · intro j hj
    obtain rfl : i = j := Option.some.inj (ht.symm.trans hj)
    refine ⟨?_, .inl ⟨?_, ?_⟩⟩
    · simpa [Shared.turn] using hs.logged i
    · simp [Shared.turn]
    · simpa [Shared.turn] using hops

/-- An invocation that goes on serving its item, and logs nothing. -/
theorem turn_eq (ht : s.serving t = some i) (x : Work) (p : Option MsgPtr)
    (heap : MsgPtr → Option Message) :
    s.turn t i x p heap (s.history i) (some i) =
      { (s.setWork i x).setVar t p with heap := heap } := by
  have hserving : update s.serving t (some i) = s.serving := by
    rw [← ht, update_eq_self]
  simp [Shared.turn, Shared.setWork, Shared.setVar, hserving]

/-- A change of the item that leaves its messages where they are. -/
theorem spec_edit {β : Type} {k : Item} {p : Option (MsgPtr × Option Message)} {P : β → View → Prop}
    (f : Work → β × Work) (hslot : (f k.work).2.aio.slot = k.work.aio.slot)
    (hmsg : (f k.work).2.msg = k.work.msg) (hops : (f k.work).2.aio.ops = k.work.aio.ops)
    (hP : P (f k.work).1 ⟨some (i, { k with work := (f k.work).2 }), p⟩) :
    (logic S).Spec t
      (does fun t s => ((f (s.works i)).1, (s.touch t i).setWork i (f (s.works i)).2))
      ⟨some (i, k), p⟩ P := by
  apply spec_turn
  rintro s hs ht rfl rfl
  refine ⟨(f (s.works i)).1, (f (s.works i)).2, s.vars t, s.heap, ?_, ?_, fun _ _ _ _ _ _ => rfl,
    ?_, ?_⟩
  · rw [turn_eq ht, does, touch_of_serving ht]
    simp [Shared.setVar, Shared.setWork]
  · exact hops.trans (hs.served ht).2
  · have hheld : held (s.turn t i (f (s.works i)).2 (s.vars t) s.heap (s.history i) (some i)) =
        held s := held_turn _ _ _ _ _ hslot.symm hmsg.symm rfl fun _ _ _ _ => rfl
    rw [hheld]
    exact hs.custody
  · have hslot' : (f (s.works i)).2.aio.slot = (s.works i).aio.slot := hslot
    have hmsg' : (f (s.works i)).2.msg = (s.works i).msg := hmsg
    simpa [itemOf, hslot', hmsg'] using hP

/-! ### The contracts -/

section Contracts

variable {k : Item} {p : Option (MsgPtr × Option Message)}

theorem spec_read {α : Type} (f : Work → α) {P : α → View → Prop}
    (hP : P (f k.work) ⟨some (i, k), p⟩) :
    (logic S).Spec t (read i f) ⟨some (i, k), p⟩ P := by
  have hread : read i f = does fun t s =>
      (f (s.works i), (s.touch t i).setWork i (s.works i)) := by
    funext t u s
    have hsame : (s.touch t i).setWork i (s.works i) = s.touch t i := by
      unfold Shared.touch Shared.setWork
      split <;> simp
    simp [read, does, hsame]
  rw [hread]
  exact spec_edit (fun x => (f x, x)) rfl rfl rfl hP

theorem spec_setState (state : State) {P : Unit → View → Prop}
    (hP : P () ⟨some (i, { k with work := { k.work with state := state } }), p⟩) :
    (logic S).Spec t (setState i state) ⟨some (i, k), p⟩ P :=
  spec_edit (fun x => ((), { x with state := state })) rfl rfl rfl hP

/-- The message goes from the slot to the variable, which is new. -/
theorem spec_releaseMsg {P : Unit → View → Prop}
    (hP : P () ⟨some (i, { k with
      work := { k.work with aio := { k.work.aio with slot := none } }
      inSlot := none }), k.work.aio.slot.map fun m => (m, k.inSlot)⟩) :
    (logic S).Spec t (releaseMsg i) ⟨some (i, k), none⟩ P := by
  apply spec_turn
  rintro s hs ht rfl hvar
  have hnone : s.vars t = none := Option.map_eq_none_iff.mp hvar
  refine ⟨(), { s.works i with aio := { (s.works i).aio with slot := none } },
    (s.works i).aio.slot, s.heap, ?_, (hs.served ht).2, fun _ _ _ _ _ _ => rfl, ?_, ?_⟩
  · rw [turn_eq ht, releaseMsg, does, touch_of_serving ht]
    rfl
  · have hmove := hs.custody.move (p := .var t) (q := .slot i) (by simp) hnone
    rwa [held_turn]
    · simp
    · simp [held]
    · simp [held]
    · intro q hslot _ hvar
      simp [hslot, hvar]
  · cases hp : (s.works i).aio.slot with
    | none => simpa [itemOf, hp] using hP
    | some m => simpa [itemOf, hp] using hP

/-- The message goes from the variable to the item, which has none. -/
theorem spec_takeMsg {P : Unit → View → Prop} {m : MsgPtr} {msg : Option Message}
    (hmsg : k.work.msg = none)
    (hP : P () ⟨some (i, { k with work := { k.work with msg := some m }, inMsg := msg }), none⟩) :
    (logic S).Spec t (takeMsg i) ⟨some (i, k), some (m, msg)⟩ P := by
  apply spec_turn
  rintro s hs ht rfl hvar
  obtain ⟨m', hm', hpair⟩ := Option.map_eq_some_iff.mp hvar
  obtain ⟨rfl, rfl⟩ := Prod.mk.inj hpair
  have hnone : (s.works i).msg = none := hmsg
  refine ⟨(), { s.works i with msg := some m' }, none, s.heap, ?_, (hs.served ht).2,
    fun _ _ _ _ _ _ => rfl, ?_, ?_⟩
  · rw [turn_eq ht, takeMsg, does, touch_of_serving ht]
    dsimp only
    rw [hnone, hm']
    rfl
  · have hmove := hs.custody.move (p := .msg i) (q := .var t) (by simp) hnone
    rwa [held_turn]
    · simp [held]
    · simp [held, hm']
    · simp
    · intro q _ hmsg hvar
      simp [hmsg, hvar]
  · simpa [itemOf] using hP

/-- The message goes from the item to the slot, which is empty. -/
theorem spec_setMsg {P : Unit → View → Prop} (hslot : k.work.aio.slot = none)
    (hP : P () ⟨some (i, { k with
      work := { k.work with msg := none, aio := { k.work.aio with slot := k.work.msg } }
      inSlot := k.inMsg
      inMsg := none }), p⟩) :
    (logic S).Spec t (setMsg i) ⟨some (i, k), p⟩ P := by
  apply spec_turn
  rintro s hs ht rfl rfl
  have hnone : (s.works i).aio.slot = none := hslot
  refine ⟨(), { s.works i with
    msg := none
    aio := { (s.works i).aio with slot := (s.works i).msg } }, s.vars t, s.heap, ?_,
    (hs.served ht).2, fun _ _ _ _ _ _ => rfl, ?_, ?_⟩
  · rw [turn_eq ht, setMsg, does, touch_of_serving ht]
    dsimp only
    rw [hnone]
    simp [Shared.setWork, Shared.setVar]
  · have hmove := hs.custody.move (p := .slot i) (q := .msg i) (by simp) hnone
    rwa [held_turn]
    · simp [held]
    · simp
    · simp [held]
    · intro q hslot hmsg _
      simp [hslot, hmsg]
  · simpa [itemOf] using hP

/-- What is in one place does not show in another. -/
theorem Inv.bind_update (hs : Inv S s) {q r : Place} (hne : r ≠ q) {m : MsgPtr}
    (hm : held s q = some m) (y : Option Message) :
    (held s r).bind (update s.heap m y) = (held s r).bind s.heap := by
  cases hr : held s r with
  | none => rfl
  | some m' =>
      have hmm : m' ≠ m := by
        rintro rfl
        exact hne (hs.custody.exclusive hr hm)
      rw [Option.bind_some, Option.bind_some, update_of_ne hmm]

theorem run_trimU32 {heap : MsgPtr → Option Message} {m : MsgPtr} {msg : Message}
    (hm : heap m = some msg) :
    (Msg.MsgBody.trimU32 m).run (Msg.bytesOf heap) =
      if 4 ≤ msg.body.length then
        .ok (some (Msg.Width.decode .u32 (msg.body.take 4)))
          (update (Msg.bytesOf heap) m (trimmed msg))
      else .error ⟨.inval, "nng_msg_trim_u32"⟩ (Msg.bytesOf heap) := by
  have hrun := Msg.run_trimU .body "nng_msg_trim_u32" m (Msg.bytesOf heap) .u32
  have hbytes : Msg.bytesOf heap m = msg := by simp [Msg.bytesOf, hm]
  rw [Msg.MsgBody.trimU32, hrun, hbytes, Msg.removing]
  show Msg.outcome _ _ _ _ (if 4 ≤ msg.body.length then _ else _) = _
  split
  · rw [Msg.outcome, Msg.edit, hbytes]
    rfl
  · rfl

/-- The message in the variable loses its first bytes, or the call throws. -/
theorem spec_trimU32 {m : MsgPtr} {msg : Message}
    {P : Except Exception (Option (BitVec 32)) → View → Prop}
    (hlong : 4 ≤ msg.body.length → ∀ val, P (.ok val) ⟨some (i, k), some (m, some (trimmed msg))⟩)
    (hshort : msg.body.length < 4 → ∀ e, P (.error e) ⟨some (i, k), some (m, some msg)⟩) :
    (logic S).Spec t trimU32 ⟨some (i, k), some (m, some msg)⟩ P := by
  apply spec_turn
  rintro s hs ht rfl hvar
  obtain ⟨m', hm', hpair⟩ := Option.map_eq_some_iff.mp hvar
  obtain ⟨rfl, hmsg⟩ := Prod.mk.inj hpair
  have hlive : s.heap m' ≠ none := by simp [hmsg]
  have hrun := run_trimU32 hmsg
  rcases Nat.lt_or_ge msg.body.length 4 with hlt | hge
  · rw [if_neg (by omega)] at hrun
    refine ⟨.error ⟨.inval, "nng_msg_trim_u32"⟩, s.works i, s.vars t, s.heap, ?_,
      (hs.served ht).2, fun _ _ _ _ _ _ => rfl, ?_, ?_⟩
    · rw [turn_eq ht, Shared.setWork, Shared.setVar, update_eq_self, update_eq_self]
      simp only [trimU32, does, hm', hrun, Msg.putBytes_bytesOf]
    · have hheld : held (s.turn t i (s.works i) (s.vars t) s.heap (s.history i) (some i)) =
          held s := held_turn _ _ _ _ _ rfl rfl rfl fun _ _ _ _ => rfl
      rw [hheld]
      exact hs.custody
    · simpa [hm', hmsg, itemOf] using hshort hlt _
  · rw [if_pos hge] at hrun
    refine ⟨.ok (some (Msg.Width.decode .u32 (msg.body.take 4))), s.works i, s.vars t,
      update s.heap m' (some (trimmed msg)), ?_, (hs.served ht).2, ?_, ?_, ?_⟩
    · rw [turn_eq ht, Shared.setWork, Shared.setVar, update_eq_self, update_eq_self]
      simp only [trimU32, does, hm', hrun, Msg.putBytes_update hlive]
      rfl
    · intro q m hslot _ hv hq
      have hne : m ≠ m' := by
        rintro rfl
        exact hv (hs.custody.exclusive hq hm')
      exact update_of_ne hne _ _
    · have hheld : held (s.turn t i (s.works i) (s.vars t) (update s.heap m' (some (trimmed msg)))
          (s.history i) (some i)) = held s :=
        held_turn _ _ _ _ _ rfl rfl rfl fun _ _ _ _ => rfl
      rw [hheld]
      exact ⟨hs.custody.toLedger.rewrite hlive _, hs.custody.apart⟩
    · have hslot := hs.bind_update (q := .var t) (r := .slot i) (by simp) hm' (some (trimmed msg))
      have hmsg := hs.bind_update (q := .var t) (r := .msg i) (by simp) hm' (some (trimmed msg))
      simp only [held] at hslot hmsg
      have hP := hlong hge (some (Msg.Width.decode .u32 (msg.body.take 4)))
      simpa [hm', itemOf, hslot, hmsg] using hP

/-- The variable is destroyed, whether the invocation still serves an item or has
started its last operation. -/
theorem spec_dropMsg {w : Option (WorkPtr × Item)} {P : Unit → View → Prop}
    (hP : P () ⟨w, none⟩) : (logic S).Spec t dropMsg ⟨w, p⟩ P := by
  intro s _ b s' hs hsees hf
  obtain rfl : (s.freeMsg (s.vars t)).setVar t none = s' :=
    congrArg Prod.snd (Option.some.inj hf)
  obtain rfl : () = b := rfl
  -- the variable may be null already
  have hfree : s.freeMsg (s.vars t) = { s with heap := without s.heap (s.vars t) } := by
    cases hm : s.vars t with
    | none => rfl
    | some m =>
        have hlive : s.heap m ≠ none := hs.custody.live (p := .var t) hm
        simp [Shared.freeMsg, hlive, without]
  have hheap : ∀ q m, q ≠ .var t → held s q = some m → without s.heap (s.vars t) m = s.heap m := by
    intro q m hq hm
    cases hv : s.vars t with
    | none => rfl
    | some m' =>
        have hne : m ≠ m' := by
          rintro rfl
          exact hq (hs.custody.exclusive hm hv)
        exact update_of_ne hne _ _
  have hitem : ∀ j, itemOf ((s.freeMsg (s.vars t)).setVar t none) j = itemOf s j := by
    intro j
    have hslot : (s.works j).aio.slot.bind (without s.heap (s.vars t)) =
        (s.works j).aio.slot.bind s.heap := by
      cases hm : (s.works j).aio.slot with
      | none => rfl
      | some m => exact hheap (.slot j) m (by simp) hm
    have hmsg : (s.works j).msg.bind (without s.heap (s.vars t)) = (s.works j).msg.bind s.heap := by
      cases hm : (s.works j).msg with
      | none => rfl
      | some m => exact hheap (.msg j) m (by simp) hm
    simp [itemOf, hfree, Shared.setVar, hslot, hmsg]
  have hframe : Frame t s ((s.freeMsg (s.vars t)).setVar t none) := by
    rw [hfree]
    refine ⟨fun _ _ => rfl, rfl, fun _ _ => rfl, fun u hu => update_of_ne hu _ _,
      fun _ _ => rfl, ?_, ?_⟩
    · rintro j _ m (hm | hm)
      · exact hheap (.slot j) m (by simp) hm
      · exact hheap (.msg j) m (by simp) hm
    · intro u hu m hm
      exact hheap (.var u) m (by simp [hu]) hm
  have hserving : ((s.freeMsg (s.vars t)).setVar t none).serving = s.serving := by
    rw [hfree]
    rfl
  have hcustody : Entrusted (held ((s.freeMsg (s.vars t)).setVar t none)) s.taken s.lost
      (without s.heap (s.vars t)) := by
    have hheld : held ((s.freeMsg (s.vars t)).setVar t none) =
        update (held s) (.var t) none := by
      rw [hfree]
      ext q
      rcases q with j | j | u
      · simp [held, Shared.setVar]
      · simp [held, Shared.setVar]
      · rcases eq_or_ne u t with rfl | hu
        · simp [held, Shared.setVar]
        · simp [held, Shared.setVar, hu]
    rw [hheld]
    exact hs.custody.retire (.var t)
  refine ⟨hframe.inv hs ?_ ?_ ?_ ?_ ?_, hframe.frames hs, _, rfl, ?_⟩
  · rw [hfree] at hcustody ⊢
    exact hcustody
  · rw [hfree]
    exact hs.kept
  · rw [hfree]
    exact hs.noFault
  · rw [hserving]
    exact id
  · intro j hj
    rw [hserving, hfree]
    exact ⟨hs.logged j, .inl ⟨hj, (hs.served hj).2⟩⟩
  · have hview : viewOf ((s.freeMsg (s.vars t)).setVar t none) t = ⟨w, none⟩ := by
      have hw : (s.serving t).map (fun j => (j, itemOf s j)) = w := congrArg View.item hsees
      rw [viewOf, hserving]
      simp only [hitem, hw]
      simp [Shared.setVar]
    rwa [hview]

/-- What the item is like once the operation has been started. -/
def Item.started (k : Item) (op : Operation) : Item where
  work := { k.work with aio := { k.work.aio with ops := [op] } }
  launched := k.launched
  history := match op with
    | .send _ => k.history ++ [.sending k.work.aio.slot k.inSlot]
    | _ => k.history
  inSlot := k.inSlot
  inMsg := k.inMsg

/-- The item is given up, at rest. -/
theorem spec_start {op : Operation} {P : Unit → View → Prop} (hrests : Rests (S i) (k.started op))
    (hP : P () ⟨none, p⟩) : (logic S).Spec t (start i op) ⟨some (i, k), p⟩ P := by
  intro s _ b s' hs hsees hf
  obtain ⟨ht, rfl, rfl⟩ := of_sees hsees
  have hops : (s.works i).aio.ops = [] := (hs.served ht).2
  obtain rfl : s.turn t i ((itemOf s i).started op).work (s.vars t) s.heap
      ((itemOf s i).started op).history none = s' := by
    have hnext : (start i op t () s).map Prod.snd = some s' := congrArg (Option.map Prod.snd) hf
    rw [start, does, Option.map_some, touch_of_serving ht] at hnext
    rw [← Option.some.inj hnext]
    cases op <;>
      simp [Shared.turn, Shared.setWork, Shared.log, Item.started, itemOf, hops]
  have hframe := frame_turn ((itemOf s i).started op).work (s.vars t) s.heap
    ((itemOf s i).started op).history none ht fun _ _ _ _ _ _ => rfl
  have hitem : itemOf (s.turn t i ((itemOf s i).started op).work (s.vars t) s.heap
      ((itemOf s i).started op).history none) i = (itemOf s i).started op :=
    itemOf_turn ..
  refine ⟨hframe.inv hs ?_ hs.kept hs.noFault ?_ ?_, hframe.frames hs, _, rfl, ?_⟩
  · have hheld : held (s.turn t i ((itemOf s i).started op).work (s.vars t) s.heap
        ((itemOf s i).started op).history none) = held s :=
      held_turn _ _ _ _ _ rfl rfl rfl fun _ _ _ _ => rfl
    rw [hheld]
    exact hs.custody
  · intro hnone
    rw [ht] at hnone
    cases hnone
  · intro j hj
    obtain rfl : i = j := Option.some.inj (ht.symm.trans hj)
    rw [hitem]
    refine ⟨?_, .inr ⟨by simp [Shared.turn], hrests⟩⟩
    simpa [Shared.turn] using hrests.logged
  · have hview : viewOf (s.turn t i ((itemOf s i).started op).work (s.vars t) s.heap
        ((itemOf s i).started op).history none) t =
        ⟨none, (s.vars t).map fun m => (m, s.heap m)⟩ := by
      simp [viewOf, Shared.turn]
    rwa [hview]

end Contracts

end Nngpp.Async
