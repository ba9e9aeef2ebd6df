import Nngpp.Async.Statements

/-!
The servers over whole runs.

`safe_serverCb` goes through the text of the callback once, with the contracts of
its statements: called on an item that has just got its operation completed, it
leaves the item at rest and keeps nothing. That, with what nng does to an item
that is at rest, makes every interleaving sound (`sound_run`), and the claims
about an item are then read off the two states in which it can be.
-/

namespace Nngpp.Async

open Function Lib

variable {S : Server} {t : Tid} {i : WorkPtr}

/-! ### The callback -/

/-- What the callback finds when it is called. -/
inductive Called (k : Item) : Prop
  | init (work : k.work = {}) (launched : k.launched = true) (history : k.history = [])
  | received (past : List (MsgPtr × Message)) (m : MsgPtr) (msg : Message)
      (work : k.work = ⟨.recv, ⟨some m, .success, []⟩, none⟩) (launched : k.launched = true)
      (history : k.history = exchanges past ++ [.received m msg]) (inSlot : k.inSlot = some msg)
  | slept (past : List (MsgPtr × Message)) (m : MsgPtr) (msg : Message) (r : Error)
      (long : 4 ≤ msg.body.length) (work : k.work = ⟨.wait, ⟨none, r, []⟩, some m⟩)
      (launched : k.launched = true) (history : k.history = exchanges past ++ [.received m msg])
      (inMsg : k.inMsg = some (trimmed msg))
  | sent (past : List (MsgPtr × Message)) (work : k.work = ⟨.send, ⟨none, .success, []⟩, none⟩)
      (launched : k.launched = true) (history : k.history = exchanges past)
  | failed (state : k.work.state = .recv ∨ k.work.state = .send)
      (result : k.work.aio.result ≠ .success)

/-- An invocation that is done has nothing. -/
def Done (v : View) : Prop := v = .nothing

section Callback

variable {k : Item}

/-- A completion that reports a failure ends the process. -/
theorem ok_orFail {p : Option (MsgPtr × Option Message)} {Q : Unit → View → Prop}
    (hQ : k.work.aio.result = .success → Q () ⟨some (i, k), p⟩) :
    (logic S).Ok t (orFail i) Q (fun _ _ => True) ⟨some (i, k), p⟩ := by
  apply Logic.Ok.bind
  apply Logic.Ok.act
  apply spec_read
  rcases eq_or_ne k.work.aio.result .success with h | h
  · rw [if_neg (not_not.mpr h)]
    exact Logic.Ok.pure (hQ h)
  · rw [if_pos h]
    exact Logic.Ok.throw trivial

/-- The last statements of the branches that go back to receiving. -/
theorem ok_receive {past : List (MsgPtr × Message)} {r : Error} {state : State}
    (work : k.work = ⟨state, ⟨none, r, []⟩, none⟩) (launched : k.launched = true)
    (history : k.history = exchanges past) :
    (logic S).Ok t (do
      Code.act (setState i .recv)
      Code.act (start i (.recv (S i))) : Code Unit)
      (fun _ => Done) (fun _ _ => True) ⟨some (i, k), none⟩ := by
  apply Logic.Ok.bind
  apply Logic.Ok.act
  apply spec_setState
  apply Logic.Ok.act
  apply spec_start
  · exact .recv past r (by simp [Item.started, work]) launched history
  · rfl

/-- A message has been received. -/
theorem ok_onReceived {past : List (MsgPtr × Message)} {m : MsgPtr} {msg : Message}
    (work : k.work = ⟨.recv, ⟨some m, .success, []⟩, none⟩) (launched : k.launched = true)
    (history : k.history = exchanges past ++ [.received m msg]) (inSlot : k.inSlot = some msg) :
    (logic S).Ok t (onReceived S i) (fun _ => Done) (fun _ _ => True) ⟨some (i, k), none⟩ := by
  apply Logic.Ok.bind
  apply ok_orFail
  intro _
  apply Logic.Ok.bind
  apply Logic.Ok.act
  apply spec_releaseMsg
  rw [work, inSlot]
  apply Logic.Ok.bind
  apply Logic.Ok.act
  apply spec_trimU32
  · -- the delay is off the message, which waits in the item
    intro hlong when
    apply Logic.Ok.bind
    apply Logic.Ok.act
    apply spec_takeMsg
    · rfl
    apply Logic.Ok.bind
    apply Logic.Ok.act
    apply spec_dropMsg
    apply Logic.Ok.bind
    apply Logic.Ok.act
    apply spec_setState
    apply Logic.Ok.act
    apply spec_start
    · exact .sleep past m msg .success when hlong rfl launched history rfl
    · rfl
  · -- a message that is too short is freed once the next receive has been started
    intro hshort e
    apply Logic.Ok.bind
    apply Logic.Ok.act
    apply spec_start
    · refine .recv (past ++ [(m, msg)]) .success rfl launched ?_
      rw [exchanges_concat, exchange_short hshort]
      exact history
    · apply Logic.Ok.act
      apply spec_dropMsg
      rfl

/-- The delay is over. -/
theorem ok_onSlept {past : List (MsgPtr × Message)} {m : MsgPtr} {msg : Message} {r : Error}
    (hlong : 4 ≤ msg.body.length) (work : k.work = ⟨.wait, ⟨none, r, []⟩, some m⟩)
    (launched : k.launched = true) (history : k.history = exchanges past ++ [.received m msg])
    (inMsg : k.inMsg = some (trimmed msg)) :
    (logic S).Ok t (do
      Code.act (setMsg i)
      Code.act (setState i .send)
      Code.act (start i (.send (S i))) : Code Unit)
      (fun _ => Done) (fun _ _ => True) ⟨some (i, k), none⟩ := by
  apply Logic.Ok.bind
  apply Logic.Ok.act
  apply spec_setMsg
  · rw [work]
  apply Logic.Ok.bind
  apply Logic.Ok.act
  apply spec_setState
  apply Logic.Ok.act
  apply spec_start
  · refine .send past m msg r hlong (by simp [Item.started, work]) launched ?_ inMsg
    simp [Item.started, history, work, inMsg]
  · rfl

/-- Whatever it is called for, the callback leaves the item at rest, or ends the
process. -/
theorem safe_serverCb (hk : Called k) :
    (logic S).Safe t (serverCb S i) (fun _ => Done) ⟨some (i, k), none⟩ := by
  apply Logic.Ok.orExit
  apply Logic.Ok.bind
  apply Logic.Ok.act
  apply spec_read
  cases hk with
  | init work launched history =>
      rw [work]
      have hpast : k.history = exchanges [] := history
      exact ok_receive work launched hpast
  | received past m msg work launched history inSlot =>
      rw [work]
      exact ok_onReceived work launched history inSlot
  | slept past m msg r hlong work launched history inMsg =>
      rw [work]
      exact ok_onSlept hlong work launched history inMsg
  | sent past work launched history =>
      rw [work]
      apply Logic.Ok.bind
      apply ok_orFail
      intro _
      exact ok_receive work launched history
  | failed state result =>
      obtain state | state := state
      · rw [state]
        apply Logic.Ok.bind
        apply ok_orFail
        intro hsuccess
        exact absurd hsuccess result
      · rw [state]
        apply Logic.Ok.bind
        apply ok_orFail
        intro hsuccess
        exact absurd hsuccess result

end Callback

/-! ### Completions -/

/-- The environment changes one item, and nothing that others can see. -/
structure Outside (i : WorkPtr) (s s' : Shared) : Prop where
  items : ∀ j, j ≠ i → itemOf s' j = itemOf s j
  vars : s'.vars = s.vars
  inVars : ∀ u m, s.vars u = some m → s'.heap m = s.heap m
  serving : s'.serving = s.serving

section Outside

variable {s s' : Shared}

@[simp] theorem serving_serve (s : Shared) (i : WorkPtr) (t : Tid) :
    (s.serve i t).serving t = some i :=
  update_self ..

theorem serving_serve_of_ne {u : Tid} (hu : u ≠ t) :
    (s.serve i t).serving u = s.serving u :=
  update_of_ne hu ..

/-- The callback is called on an item that was at rest. -/
theorem Inv.call (hs : Inv S s) (h : Outside i s s') (hrest : ∀ u, s.serving u ≠ some i)
    (hidle : s.serving t = none) (custody : Entrusted (held s') s'.taken s'.lost s'.heap)
    (kept : ∀ m, s'.lost m = false) (noFault : s'.faults = []) (launched : s'.launched i = true)
    (ops : (s'.works i).aio.ops = []) (logged : Logged (s'.history i)) :
    Inv S (s'.serve i t) := by
  have hserving : ∀ {u j}, (s'.serve i t).serving u = some j →
      u = t ∧ j = i ∨ s.serving u = some j ∧ j ≠ i := by
    intro u j hu
    rcases eq_or_ne u t with rfl | hut
    · refine .inl ⟨rfl, ?_⟩
      simpa [eq_comm] using hu
    · rw [serving_serve_of_ne hut, h.serving] at hu
      refine .inr ⟨hu, ?_⟩
      rintro rfl
      exact hrest u hu
  have hitem : ∀ j, j ≠ i → itemOf (s'.serve i t) j = itemOf s j := h.items
  refine ⟨custody, kept, noFault, ?_, ?_, ?_, ?_⟩
  · intro u v j hu hv
    obtain ⟨rfl, rfl⟩ | ⟨hu, hj⟩ := hserving hu
    · obtain ⟨rfl, -⟩ | ⟨-, hj⟩ := hserving hv
      · rfl
      · exact absurd rfl hj
    · obtain ⟨-, rfl⟩ | ⟨hv, -⟩ := hserving hv
      · exact absurd rfl hj
      · exact hs.exclusive hu hv
  · intro j hj
    rcases eq_or_ne j i with rfl | hne
    · exact absurd (serving_serve s' j t) (hj t)
    · rw [hitem j hne]
      apply hs.rests j
      intro u hu
      rcases eq_or_ne u t with rfl | hut
      · rw [hidle] at hu
        cases hu
      · exact hj u (by rw [serving_serve_of_ne hut, h.serving, hu])
  · intro u j hu
    obtain ⟨rfl, rfl⟩ | ⟨hu, hj⟩ := hserving hu
    · exact ⟨launched, ops⟩
    · have hsame := hitem j hj
      have hwork : s'.works j = s.works j := congrArg Item.work hsame
      have hlaunched : s'.launched j = s.launched j := congrArg Item.launched hsame
      rw [Shared.serve, hwork, hlaunched]
      exact hs.served hu
  · intro j
    rcases eq_or_ne j i with rfl | hne
    · exact logged
    · have hhistory : s'.history j = s.history j := congrArg Item.history (hitem j hne)
      rw [Shared.serve, hhistory]
      exact hs.logged j

/-- Nobody notices that the callback is called, but the invocation itself. -/
theorem Outside.view (h : Outside i s s') (hrest : ∀ u, s.serving u ≠ some i) {u : Tid}
    (hu : u ≠ t) : viewOf (s'.serve i t) u = viewOf s u := by
  have hitem : (s.serving u).map (fun j => (j, itemOf (s'.serve i t) j)) =
      (s.serving u).map fun j => (j, itemOf s j) := by
    cases hp : s.serving u with
    | none => rfl
    | some j =>
        have hne : j ≠ i := by rintro rfl; exact hrest u hp
        have hsame : itemOf (s'.serve i t) j = itemOf s j := h.items j hne
        simp [hsame]
  have hvar : (s.vars u).map (fun m => (m, s'.heap m)) = (s.vars u).map fun m => (m, s.heap m) := by
    cases hp : s.vars u with
    | none => rfl
    | some m => simp [h.inVars u m hp]
  have hserving : (s'.serve i t).serving u = s.serving u := by
    rw [serving_serve_of_ne hu, h.serving]
  have hvars : (s'.serve i t).vars u = s.vars u := congrFun h.vars u
  rw [viewOf, viewOf, hserving, hvars, hitem]
  exact congrArg (View.mk _) hvar

theorem view_called (h : Outside i s s') (hidle : s.vars t = none) :
    viewOf (s'.serve i t) t = ⟨some (i, itemOf s' i), none⟩ := by
  have hvars : (s'.serve i t).vars t = none := (congrFun h.vars t).trans hidle
  rw [viewOf, hvars]
  simp [Shared.serve, itemOf]

/-- A state in which an operation of an item has ended. -/
def Shared.ended (s : Shared) (i : WorkPtr) (x : Work) (h : List Event)
    (heap : MsgPtr → Option Message) (taken : MsgPtr → Option WorkPtr) : Shared :=
  { s with
    works := update s.works i x
    history := update s.history i h
    heap := heap
    taken := taken }

variable {x : Work} {h : List Event} {heap : MsgPtr → Option Message}
  {taken : MsgPtr → Option WorkPtr}

theorem itemOf_ended : itemOf (s.ended i x h heap taken) i =
    ⟨x, s.launched i, h, x.aio.slot.bind heap, x.msg.bind heap⟩ := by
  simp [itemOf, Shared.ended]

theorem held_ended (hmsg : x.msg = (s.works i).msg) :
    held (s.ended i x h heap taken) = update (held s) (.slot i) x.aio.slot := by
  ext q
  rcases q with j | j | u
  · rcases eq_or_ne j i with rfl | hj
    · simp [held, Shared.ended]
    · simp [held, Shared.ended, hj]
  · rcases eq_or_ne j i with rfl | hj
    · simp [held, Shared.ended, hmsg]
    · simp [held, Shared.ended, hj]
  · simp [held, Shared.ended]

/-- What nng changes of the messages that somebody holds is nothing. -/
theorem outside_ended (hheap : ∀ q m, held s q = some m → heap m = s.heap m) :
    Outside i s (s.ended i x h heap taken) where
  items j hj := by
    have hslot : (s.works j).aio.slot.bind heap = (s.works j).aio.slot.bind s.heap := by
      cases hp : (s.works j).aio.slot with
      | none => rfl
      | some m => exact hheap (.slot j) m hp
    have hmsg : (s.works j).msg.bind heap = (s.works j).msg.bind s.heap := by
      cases hp : (s.works j).msg with
      | none => rfl
      | some m => exact hheap (.msg j) m hp
    simp [itemOf, Shared.ended, hj, hslot, hmsg]
  vars := rfl
  inVars u m hm := hheap (.var u) m hm
  serving := rfl

end Outside

/-- An operation ends, and the item is as the callback expects it. -/
structure Ends (i : WorkPtr) (s s' : Shared) : Prop where
  outside : Outside i s s'
  custody : Entrusted (held s') s'.taken s'.lost s'.heap
  kept : ∀ m, s'.lost m = false
  noFault : s'.faults = []
  launched : s'.launched i = true
  ops : (s'.works i).aio.ops = []
  logged : Logged (s'.history i)
  called : Called (itemOf s' i)

section Ends

variable {s s' : Shared}

/-- An operation ends and moves no message. -/
theorem ends_still (hs : Inv S s) (launched : s.launched i = true) (r : Error)
    (called : Called { itemOf s i with
      work := { s.works i with aio := { (s.works i).aio with result := r, ops := [] } } }) :
    Ends i s (s.setWork i { s.works i with
      aio := { (s.works i).aio with result := r, ops := [] } }) := by
  have hended : s.setWork i { s.works i with
      aio := { (s.works i).aio with result := r, ops := [] } } =
      s.ended i { s.works i with aio := { (s.works i).aio with result := r, ops := [] } }
        (s.history i) s.heap s.taken := by
    simp [Shared.setWork, Shared.ended]
  rw [hended]
  refine ⟨outside_ended fun _ _ _ => rfl, ?_, hs.kept, hs.noFault, launched, ?_, ?_, ?_⟩
  · rw [held_ended (by rfl)]
    have hsame : update (held s) (.slot i) (s.works i).aio.slot = held s :=
      update_eq_self (.slot i) (held s)
    rw [hsame]
    exact hs.custody
  · simp [Shared.ended]
  · simpa [Shared.ended] using hs.logged i
  · rw [itemOf_ended]
    exact called

/-- A message is received. -/
theorem ends_received (hs : Inv S s) {past : List (MsgPtr × Message)} {r : Error} {x : Endpoint}
    (work : s.works i = ⟨.recv, ⟨none, r, [.recv x]⟩, none⟩) (launched : s.launched i = true)
    (history : s.history i = exchanges past) {m : MsgPtr} (hm : s.heap m = none ∨ s.taken m ≠ none)
    (msg : Message) : Ends i s ((s.finish i (.recv x) .success).receive i m msg) := by
  have hended : (s.finish i (.recv x) .success).receive i m msg =
      s.ended i ⟨.recv, ⟨some m, .success, []⟩, none⟩ (s.history i ++ [.received m msg])
        (update s.heap m (some msg)) (update s.taken m none) := by
    simp [Shared.finish, Shared.receive, Shared.setSlot, Shared.setWork, Shared.log, Shared.ended,
      work]
  -- the message is nng's, so it is in none of the places
  have hfree : ∀ q m', held s q = some m' → m' ≠ m := by
    rintro q m' hq rfl
    obtain hm | hm := hm
    · exact hs.custody.live hq hm
    · exact hm (hs.custody.taken_of_held hq)
  rw [hended]
  refine ⟨outside_ended fun q m' hq => update_of_ne (hfree q m' hq) _ _, ?_, hs.kept, hs.noFault,
    launched, ?_, ?_, ?_⟩
  · rw [held_ended (by rw [work])]
    have hslot : held s (.slot i) = none := by simp [held, work]
    exact hs.custody.deliver hslot hm msg
  · simp [Shared.ended]
  · simpa [Shared.ended, history] using logged_received past m msg
  · rw [itemOf_ended]
    refine .received past m msg rfl launched ?_ ?_
    · simp [history]
    · simp

/-- A message has been sent: nng takes it. -/
theorem ends_sent (hs : Inv S s) {past : List (MsgPtr × Message)} {r : Error} {x : Endpoint}
    {m : MsgPtr} {msg : Message} (long : 4 ≤ msg.body.length)
    (work : s.works i = ⟨.send, ⟨some m, r, [.send x]⟩, none⟩) (launched : s.launched i = true)
    (history : s.history i = exchanges past ++
      [.received m msg, .sending (some m) (some (trimmed msg))])
    (inSlot : s.heap m = some (trimmed msg)) :
    Ends i s ((s.finish i (.send x) .success).take i) := by
  have hended : (s.finish i (.send x) .success).take i =
      s.ended i ⟨.send, ⟨none, .success, []⟩, none⟩
        (s.history i ++ [.sent (some m) (some (trimmed msg))]) s.heap
        (update s.taken m (some i)) := by
    simp [Shared.finish, Shared.take, Shared.setSlot, Shared.setWork, Shared.log, Shared.ended,
      work, inSlot]
  have hpast : s.history i ++ [.sent (some m) (some (trimmed msg))] =
      exchanges (past ++ [(m, msg)]) := by
    rw [history, exchanges_concat, exchange_long long, List.append_assoc]
    rfl
  rw [hended, hpast]
  refine ⟨outside_ended fun _ _ _ => rfl, ?_, hs.kept, hs.noFault, launched, ?_, ?_, ?_⟩
  · rw [held_ended (by rw [work])]
    have hslot : held s (.slot i) = some m := by simp [held, work]
    exact hs.custody.handOver hslot i
  · simp [Shared.ended]
  · simpa [Shared.ended] using logged_exchanges (past ++ [(m, msg)])
  · rw [itemOf_ended]
    exact .sent _ rfl launched rfl

/-- Whatever outcome an operation can have, the item is as the callback expects. -/
theorem ends_complete (hs : Inv S s) {op : Operation} {out : Outcome}
    (hop : op ∈ (s.works i).aio.ops) (hrest : ∀ u, s.serving u ≠ some i)
    (hcomplete : s.complete i op out = some s') : Ends i s s' := by
  cases hs.rests i hrest with
  | new work =>
      have hwork : s.works i = {} := work
      simp [hwork] at hop
  | recv past r work launched history =>
      have hwork : s.works i = ⟨.recv, ⟨none, r, [.recv (S i)]⟩, none⟩ := work
      obtain rfl : op = .recv (S i) := by simpa [hwork] using hop
      cases out with
      | received m msg =>
          simp only [Shared.complete, Option.ite_none_right_eq_some, Option.some.injEq] at hcomplete
          obtain ⟨hm, rfl⟩ := hcomplete
          exact ends_received hs hwork launched history hm msg
      | finished e =>
          simp only [Shared.complete, Option.ite_none_left_eq_some, Option.some.injEq] at hcomplete
          obtain ⟨he, rfl⟩ := hcomplete
          have hends := ends_still hs launched e (.failed (.inl (by rw [hwork])) he)
          simpa [Shared.finish, hwork] using hends
  | sleep past m msg r when long work launched history inMsg =>
      have hwork : s.works i = ⟨.wait, ⟨none, r, [.sleep when]⟩, some m⟩ := work
      obtain rfl : op = .sleep when := by simpa [hwork] using hop
      cases out with
      | received m msg => simp [Shared.complete] at hcomplete
      | finished e =>
          obtain rfl : s.finish i (.sleep when) e = s' := Option.some.inj hcomplete
          have hends := ends_still hs launched e
            (.slept past m msg e long (by rw [hwork]) launched history inMsg)
          simpa [Shared.finish, hwork] using hends
  | send past m msg r long work launched history inSlot =>
      have hwork : s.works i = ⟨.send, ⟨some m, r, [.send (S i)]⟩, none⟩ := work
      obtain rfl : op = .send (S i) := by simpa [hwork] using hop
      cases out with
      | received m msg => simp [Shared.complete] at hcomplete
      | finished e =>
          rcases eq_or_ne e .success with rfl | he
          · obtain rfl : (s.finish i (.send (S i)) .success).take i = s' := by
              simpa [Shared.complete] using hcomplete
            have hslot : s.heap m = some (trimmed msg) := by
              simpa [itemOf, hwork] using inSlot
            exact ends_sent hs long hwork launched history hslot
          · obtain rfl : s.finish i (.send (S i)) e = s' := by
              simpa [Shared.complete, he] using hcomplete
            have hends := ends_still hs launched e (.failed (.inr (by rw [hwork])) he)
            simpa [Shared.finish, hwork] using hends

end Ends

/-! ### Steps -/

/-- Every thread knows enough, and an invocation that has not started, or has
returned, has nothing. -/
abbrev Sound (S : Server) (w : World) : Prop := Pool.Sound (logic S) Done w

section Steps

variable {w w' : World}

theorem Sound.idle (hw : Sound S w) (ht : w.code t = none) :
    w.shared.serving t = none ∧ w.shared.vars t = none := by
  obtain ⟨v, hsees, hdone⟩ := hw.absent t ht
  obtain rfl : v = .nothing := hdone
  have hview : viewOf w.shared t = .nothing := hsees
  simpa [viewOf, View.nothing] using hview

/-- The callback is called on an item as it expects it. -/
theorem Sound.call (hw : Sound S w) {s : Shared} (h : Ends i w.shared s)
    (hrest : ∀ u, w.shared.serving u ≠ some i) (ht : w.code t = none) :
    Sound S (w.spawn t (serverCb S i) (s.serve i t)) := by
  obtain ⟨hserving, hvar⟩ := hw.idle ht
  apply Pool.Sound.spawn hw
  · exact hw.inv.call h.outside hrest hserving h.custody h.kept h.noFault h.launched h.ops h.logged
  · rintro u hu v rfl
    exact h.outside.view hrest hu
  · exact view_called h.outside hvar
  · exact safe_serverCb h.called

/-- An item that waits for an operation, or that was never set going, is served by
nobody. -/
theorem Inv.at_rest {s : Shared} (hs : Inv S s)
    (hi : s.launched i = false ∨ (s.works i).aio.ops ≠ []) : ∀ u, s.serving u ≠ some i := by
  intro u hu
  obtain ⟨hlaunched, hops⟩ := hs.served hu
  obtain hi | hi := hi
  · rw [hlaunched] at hi
    cases hi
  · exact hi hops

theorem ends_launch {s : Shared} (hs : Inv S s) (hi : s.launched i = false) :
    Ends i s { s with launched := update s.launched i true } := by
  have hitem : itemOf { s with launched := update s.launched i true } i =
      { itemOf s i with launched := true } := by
    simp [itemOf]
  cases hs.rests i (hs.at_rest (.inl hi)) with
  | new work _ history =>
      have hwork : s.works i = {} := work
      refine ⟨⟨?_, rfl, fun _ _ _ => rfl, rfl⟩, hs.custody, hs.kept, hs.noFault, update_self ..,
        by simp [hwork], hs.logged i, ?_⟩
      · intro j hj
        simp [itemOf, hj]
      · rw [hitem]
        exact .init work rfl history
  | recv _ _ _ launched =>
      have hlaunched : s.launched i = true := launched
      simp [hi] at hlaunched
  | sleep _ _ _ _ _ _ _ launched =>
      have hlaunched : s.launched i = true := launched
      simp [hi] at hlaunched
  | send _ _ _ _ _ _ launched =>
      have hlaunched : s.launched i = true := launched
      simp [hi] at hlaunched

/-- nng is done with a message that it has taken: nobody can tell. -/
theorem Sound.dispose (hw : Sound S w) {m : MsgPtr} (hm : w.shared.taken m ≠ none) :
    Sound S { w with shared := { w.shared with
      heap := update w.shared.heap m none
      taken := update w.shared.taken m none } } := by
  have hs := hw.inv
  have hheap : ∀ q m', held w.shared q = some m' →
      update w.shared.heap m none m' = w.shared.heap m' := by
    intro q m' hq
    have hne : m' ≠ m := by
      rintro rfl
      exact hm (hs.custody.taken_of_held hq)
    exact update_of_ne hne _ _
  have hitem : ∀ j, itemOf { w.shared with
      heap := update w.shared.heap m none
      taken := update w.shared.taken m none } j = itemOf w.shared j := by
    intro j
    have hslot : (w.shared.works j).aio.slot.bind (update w.shared.heap m none) =
        (w.shared.works j).aio.slot.bind w.shared.heap := by
      cases hp : (w.shared.works j).aio.slot with
      | none => rfl
      | some m' => exact hheap (.slot j) m' hp
    have hmsg : (w.shared.works j).msg.bind (update w.shared.heap m none) =
        (w.shared.works j).msg.bind w.shared.heap := by
      cases hp : (w.shared.works j).msg with
      | none => rfl
      | some m' => exact hheap (.msg j) m' hp
    simp [itemOf, hslot, hmsg]
  apply Pool.Sound.outside hw
  · refine ⟨hs.custody.dispose hm, hs.kept, hs.noFault, hs.exclusive, ?_, hs.served, hs.logged⟩
    intro j hj
    rw [hitem]
    exact hs.rests j hj
  · rintro u v rfl
    have hvar : (w.shared.vars u).map (fun m' => (m', update w.shared.heap m none m')) =
        (w.shared.vars u).map fun m' => (m', w.shared.heap m') := by
      cases hp : w.shared.vars u with
      | none => rfl
      | some m' => simp [hheap (.var u) m' hp]
    show viewOf _ u = viewOf _ u
    rw [viewOf, viewOf]
    simp only [hitem]
    exact congrArg (View.mk _) hvar

theorem sound_step (hw : Sound S w) {l : Label} (hstep : Step S w l w') : Sound S w' := by
  cases hstep.stepped with
  | run hrun => exact hw.run hrun
  | launch resting absent =>
      exact hw.call (ends_launch hw.inv resting) (hw.inv.at_rest (.inl resting)) absent
  | complete started absent completes =>
      have hrest := hw.inv.at_rest (.inr (List.ne_nil_of_mem started))
      exact hw.call (ends_complete hw.inv started hrest completes) hrest absent
  | dispose taken => exact hw.dispose taken

theorem sound_init : Sound S World.init where
  inv := inv_init S
  threads _ _ := nofun
  absent _ _ := ⟨_, rfl, rfl⟩

theorem sound_run {tr : List (Transition World Label)} (run : Run (Step S) World.init tr w) :
    Sound S w :=
  run.invariant sound_init fun _ _ _ hw hstep => sound_step hw hstep

/-! ### Progress -/

theorem nonblocking_act {α : Type} (f : Tid → Shared → α × Shared) :
    (Code.act (does f) : Code α).run.Nonblocking :=
  Prog.Nonblocking.act_code fun _ _ _ => nofun

theorem nonblocking_orFail (i : WorkPtr) : (orFail i).run.Nonblocking := by
  apply Prog.Nonblocking.bind_code (nonblocking_act _)
  intro r
  split <;> trivial

/-- The callback has no statement that waits. -/
theorem nonblocking_serverCb (S : Server) (i : WorkPtr) : (serverCb S i).Nonblocking := by
  apply Prog.Nonblocking.orExit
  apply Prog.Nonblocking.bind_code (nonblocking_act _)
  intro state
  cases state with
  | init =>
      apply Prog.Nonblocking.bind_code (nonblocking_act _)
      exact fun _ => nonblocking_act _
  | recv =>
      apply Prog.Nonblocking.bind_code (nonblocking_orFail i)
      intro _
      apply Prog.Nonblocking.bind_code (nonblocking_act _)
      intro _
      apply Prog.Nonblocking.bind_code (nonblocking_act _)
      rintro (e | when)
      · apply Prog.Nonblocking.bind_code (nonblocking_act _)
        exact fun _ => nonblocking_act _
      · apply Prog.Nonblocking.bind_code (nonblocking_act _)
        intro _
        apply Prog.Nonblocking.bind_code (nonblocking_act _)
        intro _
        apply Prog.Nonblocking.bind_code (nonblocking_act _)
        exact fun _ => nonblocking_act _
  | wait =>
      apply Prog.Nonblocking.bind_code (nonblocking_act _)
      intro _
      apply Prog.Nonblocking.bind_code (nonblocking_act _)
      exact fun _ => nonblocking_act _
  | send =>
      apply Prog.Nonblocking.bind_code (nonblocking_orFail i)
      intro _
      apply Prog.Nonblocking.bind_code (nonblocking_act _)
      exact fun _ => nonblocking_act _

theorem nonblocking_run {tr : List (Transition World Label)}
    (run : Run (Step S) World.init tr w) : Pool.Nonblocking w := by
  refine run.invariant (fun _ _ => nofun) ?_
  intro w l w' hw hstep
  cases hstep.stepped with
  | run hrun => exact hw.run hrun
  | launch resting absent => exact hw.spawn _ (nonblocking_serverCb S _) _
  | complete started absent completes => exact hw.spawn _ (nonblocking_serverCb S _) _
  | dispose taken => exact hw

end Steps

/-! ### The items -/

/-- The operation that a state names. -/
def State.Names (S : Server) (i : WorkPtr) : State → Operation → Prop
  | .recv, .recv x => x = S i
  | .wait, .sleep _ => True
  | .send, .send x => x = S i
  | _, _ => False

/-- What is true of an item at any time. -/
structure Echoes (S : Server) (w : World) (i : WorkPtr) : Prop where
  single : (w.shared.works i).aio.ops.length ≤ 1
  /-- An item that was set going waits for an operation, or an invocation that has
  not returned is about to start one. -/
  active : w.shared.launched i = true → (w.shared.works i).aio.ops.length = 1 ∨
    (w.shared.works i).aio.ops = [] ∧
      ∃ t p, w.shared.serving t = some i ∧ w.code t = some p ∧ p ≠ .pure ()
  named : ∀ op ∈ (w.shared.works i).aio.ops,
    (w.shared.works i).state.Names S i op ∧
    ((w.shared.works i).msg ≠ none ↔ (w.shared.works i).state = .wait) ∧
    ((w.shared.works i).aio.slot ≠ none ↔ (w.shared.works i).state = .send)
  /-- What was received and sent is the beginning of a list of exchanges. -/
  echoed : Logged (w.shared.history i)
  /-- When the item receives again, each of its exchanges is complete. -/
  settled : (∃ x, .recv x ∈ (w.shared.works i).aio.ops) →
    ∃ past, w.shared.history i = exchanges past

/-- No message is lost or freed twice, and nobody touches what is not its own. -/
structure Clean (s : Shared) : Prop where
  accounted : ∀ m, s.heap m ≠ none → s.taken m ≠ none ∨ ∃ p, held s p = some m
  exclusive : ∀ {p q m}, held s p = some m → held s q = some m → p = q
  noFault : s.faults = []

theorem Inv.clean {s : Shared} (hs : Inv S s) : Clean s := by
  refine ⟨?_, fun hp hq => hs.custody.exclusive hp hq, hs.noFault⟩
  intro m hm
  obtain helse | hheld := hs.custody.covered hm
  · refine .inl (Option.isSome_iff_ne_none.mp ?_)
    simpa [elsewhere, hs.kept m] using helse
  · exact .inr hheld

theorem Sound.echoes {w : World} (hw : Sound S w) (i : WorkPtr) : Echoes S w i := by
  have hs := hw.inv
  rcases Classical.em (∃ t, w.shared.serving t = some i) with ⟨t, ht⟩ | hnone
  · -- the item is served: its invocation is still running
    have hops := (hs.served ht).2
    refine ⟨by simp [hops], fun _ => .inr ⟨hops, t, ?_⟩, by simp [hops], hs.logged i,
      by simp [hops]⟩
    cases hcode : w.code t with
    | none =>
        rw [(hw.idle hcode).1] at ht
        cases ht
    | some p =>
        refine ⟨p, ht, rfl, ?_⟩
        rintro rfl
        obtain ⟨v, hsees, hdone⟩ := hw.returned hcode
        obtain rfl : v = .nothing := hdone
        have hview : viewOf w.shared t = .nothing := hsees
        simp [viewOf, View.nothing, ht] at hview
  · have hrests := hs.rests i fun t ht => hnone ⟨t, ht⟩
    cases hrests with
    | new work launched history =>
        have hwork : w.shared.works i = {} := work
        have hlaunched : w.shared.launched i = false := launched
        refine ⟨by simp [hwork], ?_, by simp [hwork], hs.logged i, by simp [hwork]⟩
        intro hset
        rw [hlaunched] at hset
        cases hset
    | recv past r work launched history =>
        have hwork : w.shared.works i = ⟨.recv, ⟨none, r, [.recv (S i)]⟩, none⟩ := work
        exact ⟨by simp [hwork], fun _ => .inl (by simp [hwork]), by simp [hwork, State.Names],
          hs.logged i, fun _ => ⟨past, history⟩⟩
    | sleep past m msg r when long work launched history inMsg =>
        have hwork : w.shared.works i = ⟨.wait, ⟨none, r, [.sleep when]⟩, some m⟩ := work
        exact ⟨by simp [hwork], fun _ => .inl (by simp [hwork]), by simp [hwork, State.Names],
          hs.logged i, by simp [hwork]⟩
    | send past m msg r long work launched history inSlot =>
        have hwork : w.shared.works i = ⟨.send, ⟨some m, r, [.send (S i)]⟩, none⟩ := work
        exact ⟨by simp [hwork], fun _ => .inl (by simp [hwork]), by simp [hwork, State.Names],
          hs.logged i, by simp [hwork]⟩

/-- For either server, any number of items and every interleaving: an item never
has more than one operation outstanding, and has one unless its callback is about
to start it; the state, the message and the slot are as that operation needs
them; what is received through an item and sent through it are exchanges, in
which a message of four bytes or more is sent once, with its header as it came,
and a shorter one is not. No message gets lost on the way, and no invocation ever
waits. -/
theorem items_echo (S : Server) {tr : List (Transition World Label)} {w : World}
    (run : Run (Step S) World.init tr w) :
    (∀ i, Echoes S w i) ∧ Clean w.shared ∧
      (w.exited = false → ∀ t p, w.code t = some p → p ≠ .pure () →
        ∃ w', Step S w (.run t) w') := by
  have hw := sound_run run
  refine ⟨hw.echoes, hw.inv.clean, ?_⟩
  intro hexited t p ht hp
  obtain ⟨w', hw'⟩ := (nonblocking_run run).progress ht hp ()
  exact ⟨w', by simp [Step, exec, hexited, hw']⟩

/-- An item of `demo/async` is set going by the thread 0, and the thread 1 gets a
message that is too short while that has not returned. -/
def shortMessage : List Label :=
  [.launch 0 0, .run 0, .run 0, .run 0,
    .complete 0 (.recv (.ctx 5)) (.received 9 ⟨[1], [2, 3]⟩) 1,
    .run 1, .run 1, .run 1, .run 1, .run 1, .run 1]

/-- The message is freed, and the item receives again. -/
theorem items_echo_short :
    ∃ w, Run.follow (exec (async fun _ => 5)) World.init shortMessage = some w ∧
      w.shared.heap 9 = none ∧ (w.shared.works 0).aio.ops = [.recv (.ctx 5)] ∧
      Echoes (async fun _ => 5) w 0 := by
  obtain ⟨w, hw, hheap, hops⟩ : ∃ w,
      Run.follow (exec (async fun _ => 5)) World.init shortMessage = some w ∧
        w.shared.heap 9 = none ∧ (w.shared.works 0).aio.ops = [.recv (.ctx 5)] :=
    ⟨_, rfl, rfl, rfl⟩
  obtain ⟨tr, run⟩ := Run.of_follow hw
  exact ⟨w, hw, hheap, hops, (items_echo (async fun _ => 5) run).1 0⟩

end Nngpp.Async
