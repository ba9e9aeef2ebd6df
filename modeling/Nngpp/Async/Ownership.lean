import Nngpp.Async.Model

/-!
Who has an item, and what it knows of it.

An item is either at rest, waiting for the one operation that was started on it,
or it is served by the one invocation that was called when its operation
completed. `Rests` says what an item is like in the first case: which operation
it waits for, where its message is, and how far its history has come. In the
second case the item is the invocation's own, and `viewOf` is all that the
invocation can know: its item, its variable `msg`, and the messages that are in
them.

The statements of the callback change an item only while they serve it. So each
has a contract in terms of the view alone, and the other invocations go on seeing
what they saw (`Frame.view`).
-/

namespace Nngpp.Async

open Function Lib

/-! ### Exchanges -/

/-- A message without the delay it starts with. -/
def trimmed (msg : Message) : Message := { msg with body := msg.body.drop 4 }

/-- What the reception of a message leads to: if it is long enough to have a
delay, the message is sent once, and else nothing happens. -/
def exchange (p : MsgPtr × Message) : List Event :=
  .received p.1 p.2 ::
    if 4 ≤ p.2.body.length then
      [.sending (some p.1) (some (trimmed p.2)), .sent (some p.1) (some (trimmed p.2))]
    else []

def exchanges (past : List (MsgPtr × Message)) : List Event := past.flatMap exchange

/-- The history is the beginning of a list of exchanges. -/
def Logged (h : List Event) : Prop := ∃ past, h <+: exchanges past

theorem exchanges_concat (past : List (MsgPtr × Message)) (p : MsgPtr × Message) :
    exchanges (past ++ [p]) = exchanges past ++ exchange p := by
  simp [exchanges]

theorem logged_exchanges (past : List (MsgPtr × Message)) : Logged (exchanges past) :=
  ⟨past, List.prefix_rfl⟩

/-- An exchange that has begun. -/
theorem logged_append {past : List (MsgPtr × Message)} {p : MsgPtr × Message} {es : List Event}
    (h : es <+: exchange p) : Logged (exchanges past ++ es) := by
  refine ⟨past ++ [p], ?_⟩
  rw [exchanges_concat]
  exact (List.prefix_append_right_inj _).mpr h

theorem logged_received (past : List (MsgPtr × Message)) (m : MsgPtr) (msg : Message) :
    Logged (exchanges past ++ [.received m msg]) :=
  logged_append (p := (m, msg)) ⟨_, rfl⟩

theorem exchange_long {m : MsgPtr} {msg : Message} (h : 4 ≤ msg.body.length) :
    exchange (m, msg) = [.received m msg, .sending (some m) (some (trimmed msg)),
      .sent (some m) (some (trimmed msg))] := by
  simp [exchange, h]

theorem exchange_short {m : MsgPtr} {msg : Message} (h : msg.body.length < 4) :
    exchange (m, msg) = [.received m msg] := by
  simp [exchange, Nat.not_le.mpr h]

/-! ### Items -/

/-- Where a message can be that is not nng's. -/
inductive Place
  | slot (i : WorkPtr)
  | msg (i : WorkPtr)
  | var (t : Tid)
  deriving DecidableEq

def held (s : Shared) : Place → Option MsgPtr
  | .slot i => (s.works i).aio.slot
  | .msg i => (s.works i).msg
  | .var t => s.vars t

/-- An item, with what is in its messages. -/
structure Item where
  work : Work
  launched : Bool
  history : List Event
  inSlot : Option Message
  inMsg : Option Message

def itemOf (s : Shared) (i : WorkPtr) : Item where
  work := s.works i
  launched := s.launched i
  history := s.history i
  inSlot := (s.works i).aio.slot.bind s.heap
  inMsg := (s.works i).msg.bind s.heap

/-- An item at rest. -/
inductive Rests (x : Endpoint) (k : Item) : Prop
  | new (work : k.work = {}) (launched : k.launched = false) (history : k.history = [])
  | recv (past : List (MsgPtr × Message)) (r : Error)
      (work : k.work = ⟨.recv, ⟨none, r, [.recv x]⟩, none⟩) (launched : k.launched = true)
      (history : k.history = exchanges past)
  | sleep (past : List (MsgPtr × Message)) (m : MsgPtr) (msg : Message) (r : Error)
      (when : Option (BitVec 32)) (long : 4 ≤ msg.body.length)
      (work : k.work = ⟨.wait, ⟨none, r, [.sleep when]⟩, some m⟩) (launched : k.launched = true)
      (history : k.history = exchanges past ++ [.received m msg])
      (inMsg : k.inMsg = some (trimmed msg))
  | send (past : List (MsgPtr × Message)) (m : MsgPtr) (msg : Message) (r : Error)
      (long : 4 ≤ msg.body.length)
      (work : k.work = ⟨.send, ⟨some m, r, [.send x]⟩, none⟩) (launched : k.launched = true)
      (history : k.history = exchanges past ++
        [.received m msg, .sending (some m) (some (trimmed msg))])
      (inSlot : k.inSlot = some (trimmed msg))

theorem Rests.logged {x : Endpoint} {k : Item} (h : Rests x k) : Logged k.history := by
  cases h with
  | new _ _ history =>
      rw [history]
      exact logged_exchanges []
  | recv past _ _ _ history =>
      rw [history]
      exact logged_exchanges past
  | sleep past m msg _ _ _ _ _ history =>
      rw [history]
      exact logged_received past m msg
  | send past m msg _ long _ _ history =>
      rw [history]
      apply logged_append (p := (m, msg))
      rw [exchange_long long]
      exact ⟨[.sent (some m) (some (trimmed msg))], rfl⟩

/-! ### The invariant -/

/-- No message is lost, each item is at rest or served by one invocation, and
nothing happens that must not. -/
structure Inv (S : Server) (s : Shared) : Prop where
  custody : Entrusted (held s) s.taken s.lost s.heap
  kept : ∀ m, s.lost m = false
  noFault : s.faults = []
  exclusive : ∀ {t u i}, s.serving t = some i → s.serving u = some i → t = u
  rests : ∀ i, (∀ t, s.serving t ≠ some i) → Rests (S i) (itemOf s i)
  served : ∀ {t i}, s.serving t = some i → s.launched i = true ∧ (s.works i).aio.ops = []
  logged : ∀ i, Logged (s.history i)

theorem inv_init (S : Server) : Inv S .init where
  custody := by
    have hheld : held .init = fun _ => none := by
      ext p
      cases p <;> rfl
    rw [hheld]
    exact Entrusted.empty (fun _ => none) fun _ => ⟨[], []⟩
  kept _ := rfl
  noFault := rfl
  exclusive := nofun
  rests _ _ := .new rfl rfl rfl
  served := nofun
  logged _ := logged_exchanges []

/-! ### Views -/

/-- What an invocation knows. -/
structure View where
  item : Option (WorkPtr × Item)
  var : Option (MsgPtr × Option Message)

def viewOf (s : Shared) (t : Tid) : View where
  item := (s.serving t).map fun i => (i, itemOf s i)
  var := (s.vars t).map fun m => (m, s.heap m)

/-- An invocation that has nothing. -/
def View.nothing : View := ⟨none, none⟩

def logic (S : Server) : Logic Tid Shared View where
  Inv := Inv S
  Sees t s v := viewOf s t = v

/-- What an invocation leaves alone: what it does not serve and is not its own. -/
structure Frame (t : Tid) (s s' : Shared) : Prop where
  works : ∀ i, s.serving t ≠ some i → s'.works i = s.works i
  launched : s'.launched = s.launched
  history : ∀ i, s.serving t ≠ some i → s'.history i = s.history i
  vars : ∀ u, u ≠ t → s'.vars u = s.vars u
  serving : ∀ u, u ≠ t → s'.serving u = s.serving u
  inItems : ∀ i, s.serving t ≠ some i → ∀ m, held s (.slot i) = some m ∨ held s (.msg i) = some m →
    s'.heap m = s.heap m
  inVars : ∀ u, u ≠ t → ∀ m, held s (.var u) = some m → s'.heap m = s.heap m

namespace Frame

variable {S : Server} {t : Tid} {s s' : Shared}

theorem item (h : Frame t s s') {i : WorkPtr} (hi : s.serving t ≠ some i) :
    itemOf s' i = itemOf s i := by
  have hslot : (s.works i).aio.slot.bind s'.heap = (s.works i).aio.slot.bind s.heap := by
    cases hp : (s.works i).aio.slot with
    | none => rfl
    | some m => exact h.inItems i hi m (.inl hp)
  have hmsg : (s.works i).msg.bind s'.heap = (s.works i).msg.bind s.heap := by
    cases hp : (s.works i).msg with
    | none => rfl
    | some m => exact h.inItems i hi m (.inr hp)
  rw [itemOf, itemOf, h.works i hi, h.launched, h.history i hi, hslot, hmsg]

/-- The other invocations see what they saw. -/
theorem view (h : Frame t s s') (hs : Inv S s) {u : Tid} (hu : u ≠ t) :
    viewOf s' u = viewOf s u := by
  have hitem : (s.serving u).map (fun i => (i, itemOf s' i)) =
      (s.serving u).map fun i => (i, itemOf s i) := by
    cases hp : s.serving u with
    | none => rfl
    | some i =>
        have hi : s.serving t ≠ some i := fun ht => hu (hs.exclusive hp ht)
        simp [h.item hi]
  have hvar : (s.vars u).map (fun m => (m, s'.heap m)) = (s.vars u).map fun m => (m, s.heap m) := by
    cases hp : s.vars u with
    | none => rfl
    | some m => simp [h.inVars u hu m hp]
  rw [viewOf, viewOf, h.serving u hu, h.vars u hu, hitem, hvar]

theorem frames (h : Frame t s s') (hs : Inv S s) : (logic S).Frames t s s' := by
  rintro u hu v rfl
  exact h.view hs hu

/-- The invariant survives what an invocation does with its own. -/
theorem inv (h : Frame t s s') (hs : Inv S s)
    (custody : Entrusted (held s') s'.taken s'.lost s'.heap) (kept : ∀ m, s'.lost m = false)
    (noFault : s'.faults = []) (hnone : s.serving t = none → s'.serving t = none)
    (hsome : ∀ i, s.serving t = some i → Logged (s'.history i) ∧
      (s'.serving t = some i ∧ (s'.works i).aio.ops = [] ∨
        s'.serving t = none ∧ Rests (S i) (itemOf s' i))) : Inv S s' := by
  -- what an invocation serves afterwards it has served before
  have hserved : ∀ {u i}, s'.serving u = some i → s.serving u = some i := by
    intro u i hui
    rcases eq_or_ne u t with rfl | hu
    · cases hu : s.serving u with
      | none =>
          rw [hnone hu] at hui
          cases hui
      | some j =>
          obtain ⟨hj, -⟩ | ⟨hnone', -⟩ := (hsome j hu).2
          · rw [← hui, hj]
          · rw [hnone'] at hui
            cases hui
    · rwa [h.serving u hu] at hui
  refine ⟨custody, kept, noFault, fun ht hu => hs.exclusive (hserved ht) (hserved hu), ?_, ?_, ?_⟩
  · intro i hi
    rcases eq_or_ne (s.serving t) (some i) with ht | ht
    · obtain ⟨hkept, -⟩ | ⟨-, hrests⟩ := (hsome i ht).2
      · exact absurd hkept (hi t)
      · exact hrests
    · rw [h.item ht]
      apply hs.rests i
      intro u hu
      rcases eq_or_ne u t with rfl | hut
      · exact ht hu
      · exact hi u (by rwa [h.serving u hut])
  · intro u i hui
    have hbefore := hserved hui
    refine ⟨by rw [h.launched]; exact (hs.served hbefore).1, ?_⟩
    rcases eq_or_ne u t with rfl | hu
    · obtain ⟨-, hops⟩ | ⟨hnone', -⟩ := (hsome i hbefore).2
      · exact hops
      · rw [hnone'] at hui
        cases hui
    · have ht : s.serving t ≠ some i := fun ht => hu (hs.exclusive hbefore ht)
      rw [h.works i ht]
      exact (hs.served hbefore).2
  · intro i
    rcases eq_or_ne (s.serving t) (some i) with ht | ht
    · exact (hsome i ht).1
    · rw [h.history i ht]
      exact hs.logged i

end Frame

end Nngpp.Async
