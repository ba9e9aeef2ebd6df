import Nngpp.Aio.Model
import Nngpp.Lib.Custody
import Nngpp.Lib.Prog
import Nngpp.Msg.Calls

/-!
The work items of `demo/async/server.cpp` and of `demo/raw/raw.cpp`.

The two servers have one callback, over the context of the item or over the one
socket. It is a state machine: each call reads the state, moves the message on,
writes the next state and starts the next operation, whose completion calls it
again. It may be called before the call that started the operation has returned.

A statement is an action, which takes effect at once. `serving`, `launched` and
`history` are not in the program: which item an invocation may touch, until it
starts the next operation; whether the server has set an item going; and what
was received and sent through an item, in order. What must not happen is recorded
as a fault.
-/

namespace Nngpp.Async

open Function Lib

abbrev WorkPtr := ℕ

abbrev MsgPtr := ℕ

/-- An invocation of `server_cb`. -/
abbrev Tid := ℕ

abbrev Endpoint := Aio.Endpoint

abbrev Message := Msg.Message

/-- `work->ctx` of `demo/async`, `work->sock` of `demo/raw`. -/
abbrev Server := WorkPtr → Endpoint

/-- Each item has opened a context. -/
def async (ctx : WorkPtr → BitVec 32) : Server := fun i => .ctx (ctx i)

/-- All items use the socket. -/
def raw (sock : BitVec 32) : Server := fun _ => .socket sock

/-- `enum { INIT, RECV, WAIT, SEND } state`. -/
inductive State
  | init | recv | wait | send
  deriving DecidableEq

inductive Operation
  | recv (x : Endpoint)
  | sleep (ms : Option (BitVec 32))
  | send (x : Endpoint)
  deriving DecidableEq

/-- An `nng_aio`, with all the operations that were started on it and have not
completed. -/
structure Cell where
  slot : Option MsgPtr := none
  result : Error := .success
  ops : List Operation := []
  deriving DecidableEq

/-- `struct work`. -/
structure Work where
  state : State := .init
  aio : Cell := {}
  msg : Option MsgPtr := none
  deriving DecidableEq

/-- What passes through an item: a message that it receives, a send that it
starts, and one that is completed, with the message as it is then. -/
inductive Event
  | received (m : MsgPtr) (msg : Message)
  | sending (m : Option MsgPtr) (msg : Option Message)
  | sent (m : Option MsgPtr) (msg : Option Message)
  deriving DecidableEq

/-- An invocation touches an item which it does not serve, uses a null message,
or frees one that is not live. -/
inductive Fault
  | touch (t : Tid) (i : WorkPtr)
  | null (t : Tid)
  | freed (m : MsgPtr)
  deriving DecidableEq

/-- What the invocations share, and the variable `msg` of each. -/
structure Shared where
  works : WorkPtr → Work
  vars : Tid → Option MsgPtr
  heap : MsgPtr → Option Message
  taken : MsgPtr → Option WorkPtr
  lost : MsgPtr → Bool
  launched : WorkPtr → Bool
  serving : Tid → Option WorkPtr
  history : WorkPtr → List Event
  faults : List Fault

namespace Shared

/-- An invocation uses an item. -/
def touch (s : Shared) (t : Tid) (i : WorkPtr) : Shared :=
  if s.serving t = some i then s else { s with faults := s.faults ++ [.touch t i] }

def setWork (s : Shared) (i : WorkPtr) (x : Work) : Shared :=
  { s with works := update s.works i x }

def setVar (s : Shared) (t : Tid) (p : Option MsgPtr) : Shared :=
  { s with vars := update s.vars t p }

/-- `if( m != nullptr ) nng_msg_free(m);`. -/
def freeMsg (s : Shared) : Option MsgPtr → Shared
  | none => s
  | some m =>
      if s.heap m = none then { s with faults := s.faults ++ [.freed m] }
      else { s with heap := update s.heap m none }

def log (s : Shared) (i : WorkPtr) (e : Event) : Shared :=
  { s with history := update s.history i (s.history i ++ [e]) }

end Shared

/-! ### Statements -/

abbrev Action (α : Type) := Tid → Unit → Shared → Option (α × Shared)

abbrev Code (α : Type) := Lib.Code Tid Unit Shared Exception α

/-- A statement that never waits. -/
def does {α : Type} (f : Tid → Shared → α × Shared) : Action α := fun t _ s => some (f t s)

def read {α : Type} (i : WorkPtr) (f : Work → α) : Action α :=
  does fun t s => (f (s.works i), s.touch t i)

/-- `work->state = …;`. -/
def setState (i : WorkPtr) (state : State) : Action Unit :=
  does fun t s => ((), (s.touch t i).setWork i { s.works i with state := state })

/-- `auto msg = work->aio.release_msg();`. -/
def releaseMsg (i : WorkPtr) : Action Unit :=
  does fun t s =>
    let x := s.works i
    ((), ((s.touch t i).setWork i { x with aio := { x.aio with slot := none } }).setVar t x.aio.slot)

/-- `when = msg.body().trim_u32();`. -/
def trimU32 : Action (Except Exception (Option (BitVec 32))) :=
  does fun t s =>
    match s.vars t with
    | none => (.error ⟨.inval, ""⟩, { s with faults := s.faults ++ [.null t] })
    | some m =>
        match (Msg.MsgBody.trimU32 m).run (Msg.bytesOf s.heap) with
        | .ok val h => (.ok val, { s with heap := Msg.putBytes s.heap h })
        | .error e h => (.error e, { s with heap := Msg.putBytes s.heap h })

/-- `work->msg = std::move(msg);`. -/
def takeMsg (i : WorkPtr) : Action Unit :=
  does fun t s =>
    let x := s.works i
    ((), (((s.touch t i).freeMsg x.msg).setWork i { x with msg := s.vars t }).setVar t none)

/-- `msg` goes out of scope. -/
def dropMsg : Action Unit :=
  does fun t s => ((), (s.freeMsg (s.vars t)).setVar t none)

/-- `work->aio.set_msg( std::move(work->msg) );`. -/
def setMsg (i : WorkPtr) : Action Unit :=
  does fun t s =>
    let x := s.works i
    ((), { (s.touch t i).setWork i { x with
      msg := none
      aio := { x.aio with slot := x.msg } } with lost := lose s.lost x.aio.slot })

/-- `work->ctx.recv( work->aio )`, `nng::sleep( when, work->aio )`,
`work->ctx.send( work->aio )`: from here on the item is the callback's. -/
def start (i : WorkPtr) (op : Operation) : Action Unit :=
  does fun t s =>
    let x := s.works i
    let s' := (s.touch t i).setWork i { x with aio := { x.aio with ops := x.aio.ops ++ [op] } }
    let s' := match op with
      | .send _ => s'.log i (.sending x.aio.slot (x.aio.slot.bind s.heap))
      | _ => s'
    ((), { s' with serving := update s.serving t none })

/-! ### The callback -/

/-- `if( result != nng::error::success ) throw nng::exception(result);`. -/
def orFail (work : WorkPtr) : Code Unit := do
  let result ← Code.act (read work fun x => x.aio.result)
  if result ≠ .success then throw ⟨result, ""⟩

/-- `case work::RECV`. -/
def onReceived (S : Server) (work : WorkPtr) : Code Unit := do
  orFail work
  Code.act (releaseMsg work)
  match (← Code.act trimU32) with
  | .error _ => do
      -- bad message, just ignore it.
      Code.act (start work (.recv (S work)))
      Code.act dropMsg
  | .ok when => do
      Code.act (takeMsg work)
      Code.act dropMsg
      Code.act (setState work .wait)
      Code.act (start work (.sleep when))

/-- `void server_cb(void* arg)`. -/
def serverCb (S : Server) (work : WorkPtr) : Prog Tid Unit Shared Unit :=
  Code.orExit do
    match (← Code.act (read work Work.state)) with
    | .init => do
        Code.act (setState work .recv)
        Code.act (start work (.recv (S work)))
    | .recv => onReceived S work
    | .wait => do
        Code.act (setMsg work)
        Code.act (setState work .send)
        Code.act (start work (.send (S work)))
    | .send => do
        orFail work
        Code.act (setState work .recv)
        Code.act (start work (.recv (S work)))

/-! ### Runs -/

abbrev World := Pool Tid Unit Shared

/-- How an operation ends: a receive with a message, or any of them with a code. -/
inductive Outcome
  | received (m : MsgPtr) (msg : Message)
  | finished (e : Error)

/-- A statement of an invocation; the server sets an item going; an operation
that was started completes, and the callback is called; nng is done with a
message that it has taken. -/
inductive Label
  | run (t : Tid)
  | launch (i : WorkPtr) (t : Tid)
  | complete (i : WorkPtr) (op : Operation) (out : Outcome) (t : Tid)
  | dispose (m : MsgPtr)

namespace Shared

/-- The operation is over, with this code. -/
def finish (s : Shared) (i : WorkPtr) (op : Operation) (e : Error) : Shared :=
  let x := s.works i
  s.setWork i { x with aio := { x.aio with result := e, ops := x.aio.ops.erase op } }

def setSlot (s : Shared) (i : WorkPtr) (p : Option MsgPtr) : Shared :=
  let x := s.works i
  s.setWork i { x with aio := { x.aio with slot := p } }

/-- nng puts into the slot a message that it makes, or one that it had taken. -/
def receive (s : Shared) (i : WorkPtr) (m : MsgPtr) (msg : Message) : Shared :=
  { (s.setSlot i (some m)).log i (.received m msg) with
    heap := update s.heap m (some msg)
    taken := update s.taken m none
    lost := lose s.lost (s.works i).aio.slot }

/-- nng takes the message from the slot. -/
def take (s : Shared) (i : WorkPtr) : Shared :=
  let p := (s.works i).aio.slot
  { (s.setSlot i none).log i (.sent p (p.bind s.heap)) with
    taken := match p with
      | none => s.taken
      | some m => update s.taken m (some i) }

/-- An operation completes; not every outcome is one that it can have. -/
def complete (s : Shared) (i : WorkPtr) : Operation → Outcome → Option Shared
  | .recv x, .received m msg =>
      if s.heap m = none ∨ s.taken m ≠ none then
        some ((s.finish i (.recv x) .success).receive i m msg)
      else none
  | .recv x, .finished e => if e = .success then none else some (s.finish i (.recv x) e)
  | .sleep ms, .finished e => some (s.finish i (.sleep ms) e)
  | .send x, .finished e =>
      if e = .success then some ((s.finish i (.send x) e).take i)
      else some (s.finish i (.send x) e)
  | _, _ => none

/-- An invocation gets an item to serve. -/
def serve (s : Shared) (i : WorkPtr) (t : Tid) : Shared :=
  { s with serving := update s.serving t (some i) }

def init : Shared where
  works _ := {}
  vars _ := none
  heap _ := none
  taken _ := none
  lost _ := false
  launched _ := false
  serving _ := none
  history _ := []
  faults := []

end Shared

/-- The server sets an item going once; nng completes the operations that were
started; each call has its own name. -/
def exec (S : Server) (w : World) (l : Label) : Option World :=
  if w.exited then none
  else match l with
    | .run t => w.run t ()
    | .launch i t =>
        if w.shared.launched i = false ∧ w.code t = none then
          some (w.spawn t (serverCb S i)
            { w.shared.serve i t with launched := update w.shared.launched i true })
        else none
    | .complete i op out t =>
        if op ∈ (w.shared.works i).aio.ops ∧ w.code t = none then
          (w.shared.complete i op out).map fun s => w.spawn t (serverCb S i) (s.serve i t)
        else none
    | .dispose m =>
        if w.shared.taken m ≠ none then
          some { w with shared := { w.shared with
            heap := update w.shared.heap m none
            taken := update w.shared.taken m none } }
        else none

def Step (S : Server) (w : World) (l : Label) (w' : World) : Prop := exec S w l = some w'

/-- What the world is after a step with each of the labels, and what the server or nng has
seen to before. -/
inductive Stepped (S : Server) (w : World) : Label → World → Prop
  | run {t : Tid} {w' : World} (hrun : w.run t () = some w') : Stepped S w (.run t) w'
  | launch {i : WorkPtr} {t : Tid} (resting : w.shared.launched i = false)
      (absent : w.code t = none) :
      Stepped S w (.launch i t) (w.spawn t (serverCb S i)
        { w.shared.serve i t with launched := update w.shared.launched i true })
  | complete {i : WorkPtr} {op : Operation} {out : Outcome} {t : Tid} {s : Shared}
      (started : op ∈ (w.shared.works i).aio.ops) (absent : w.code t = none)
      (completes : w.shared.complete i op out = some s) :
      Stepped S w (.complete i op out t) (w.spawn t (serverCb S i) (s.serve i t))
  | dispose {m : MsgPtr} (taken : w.shared.taken m ≠ none) :
      Stepped S w (.dispose m) { w with shared := { w.shared with
        heap := update w.shared.heap m none
        taken := update w.shared.taken m none } }

theorem Step.stepped {S : Server} {w w' : World} {l : Label} (h : Step S w l w') :
    Stepped S w l w' := by
  unfold Step exec at h
  split at h
  · cases h
  cases l with
  | run t => exact .run h
  | launch i t =>
      obtain ⟨⟨hresting, habsent⟩, heq⟩ := Option.ite_none_right_eq_some.mp h
      obtain rfl := Option.some.inj heq
      exact .launch hresting habsent
  | complete i op out t =>
      obtain ⟨⟨hstarted, habsent⟩, heq⟩ := Option.ite_none_right_eq_some.mp h
      obtain ⟨s, hs, rfl⟩ := Option.map_eq_some_iff.mp heq
      exact .complete hstarted habsent hs
  | dispose m =>
      obtain ⟨htaken, heq⟩ := Option.ite_none_right_eq_some.mp h
      obtain rfl := Option.some.inj heq
      exact .dispose htaken

/-- The server has made its items. -/
def World.init : World where
  shared := .init
  code _ := none
  exited := false

end Nngpp.Async
