import Nngpp.Core
import Nngpp.Pointer
import Nngpp.Lib.Run

/-!
Messages that travel through asynchronous operations.

An aio has a raw slot for a message, which neither it nor nng frees.
`aio_view::set_msg( msg&& )` puts the message of an object there and
`aio_view::release_msg()` gives it to a new object; in between, an asynchronous
send takes it and an asynchronous receive puts one.

The objects of `nng::msg` and of `nng::aio` are tables; the live messages and the
live aios are nng's. An operation is started by one step and completed, with the
outcome that nng has for it, by another, so any number of them overlap.
-/

namespace Nngpp.Aio

open Function Lib

/-- Sockets and contexts, by their ids. -/
inductive Endpoint
  | socket (id : BitVec 32)
  | ctx (id : BitVec 32)
  deriving DecidableEq, Repr

/-- An operation that has been started. -/
inductive Pending
  | send (x : Endpoint)
  | recv (x : Endpoint)
  deriving DecidableEq, Repr

/-- An `nng_aio`, with at most one operation. -/
structure Cell (M : Type) where
  slot : Option M
  op : Option Pending
  deriving DecidableEq, Repr

/-- The objects of the two classes by `O` and `B`, the handles that are live, the
messages that an endpoint has taken, and the handles that were freed while not
live. -/
structure World (O M B A : Type) where
  msg : Pointer.Table O M
  heap : M → Option Unit
  aio : Pointer.Table B A
  cell : A → Option (Cell M)
  taken : M → Option Endpoint
  msgFaults : List M
  aioFaults : List A

variable {O M B A : Type} [DecidableEq O] [DecidableEq M] [DecidableEq B] [DecidableEq A]

abbrev Call (O M B A : Type) := EStateM Exception (World O M B A)

/-- What is in the slot of an aio. -/
def World.slot (w : World O M B A) (a : A) : Option M := (w.cell a).bind Cell.slot

/-! ### nng -/

/-- `if( m != nullptr ) nng_msg_free(m);`. -/
def World.freeMsg (w : World O M B A) : Option M → World O M B A
  | none => w
  | some m =>
      if w.heap m = none then { w with msgFaults := w.msgFaults ++ [m] }
      else { w with heap := update w.heap m none }

/-- `if( a != nullptr ) nng_aio_free(a);`: the message in the slot is not freed. -/
def World.freeAio (w : World O M B A) : Option A → World O M B A
  | none => w
  | some a =>
      if w.cell a = none then { w with aioFaults := w.aioFaults ++ [a] }
      else { w with cell := update w.cell a none }

/-- `nng_aio_set_msg(a,m)`. -/
def World.setSlot (w : World O M B A) (a : A) (m : Option M) : World O M B A :=
  { w with cell := update w.cell a ((w.cell a).map fun c => { c with slot := m }) }

/-- What operation an aio performs. -/
def World.setOp (w : World O M B A) (a : A) (op : Option Pending) : World O M B A :=
  { w with cell := update w.cell a ((w.cell a).map fun c => { c with op := op }) }

/-- The end of a send: nng takes the message when it succeeds. -/
def World.sendDone (w : World O M B A) (x : Endpoint) (a : A) (r : Error) : World O M B A :=
  if r = .success then
    match w.slot a with
    | some m => { (w.setOp a none).setSlot a none with taken := update w.taken m (some x) }
    | none => w.setOp a none
  else w.setOp a none

/-- The end of a receive: nng puts a message into the slot when it succeeds, one
that it makes or one that an endpoint had taken. -/
def World.recvDone (w : World O M B A) (a : A) (ans : Answer M) : World O M B A :=
  match ans with
  | .ok m =>
      { (w.setOp a none).setSlot a (some m) with
        heap := update w.heap m (some ())
        taken := update w.taken m none }
  | .error _ => w.setOp a none

/-- nng is done with a message that it has taken. -/
def World.dispose (w : World O M B A) (m : M) : World O M B A :=
  { w with heap := update w.heap m none, taken := update w.taken m none }

/-! ### `nng::msg` -/

/-- `msg() = default`. -/
def msgDefault (this : O) : Call O M B A Unit :=
  modify fun w => { w with msg := Pointer.default w.msg this }

/-- `explicit msg( size_t size )`. -/
def msgAlloc (this : O) (ans : Answer M) : Call O M B A Unit := do
  let m ← orThrow ans "nng_msg_alloc"
  modify fun w => { w with
    heap := update w.heap m (some ())
    msg := Pointer.adopt w.msg this (some m) }

/-- `explicit msg( nng_msg* m )`. -/
def msgAdopt (this : O) (m : Option M) : Call O M B A Unit :=
  modify fun w => { w with msg := Pointer.adopt w.msg this m }

/-- `msg( msg&& rhs )`. -/
def msgMoveCtor (this rhs : O) : Call O M B A Unit :=
  modify fun w => { w with msg := Pointer.moveCtor w.msg this rhs }

/-- `msg& operator=( msg&& rhs )`. -/
def msgMoveAssign (this rhs : O) : Call O M B A Unit :=
  modify fun w =>
    let r := Pointer.moveAssign w.msg this rhs
    { w with msg := r.1 }.freeMsg r.2

/-- `~msg()`. -/
def msgDestroy (this : O) : Call O M B A Unit :=
  modify fun w =>
    let r := Pointer.destroy w.msg this
    { w with msg := r.1 }.freeMsg r.2

/-- `release()`. -/
def msgRelease (this : O) : Call O M B A (Option M) :=
  modifyGet fun w =>
    let r := Pointer.release w.msg this
    (r.2, { w with msg := r.1 })

/-! ### `nng::aio` -/

/-- `aio() = default`. -/
def aioDefault (this : B) : Call O M B A Unit :=
  modify fun w => { w with aio := Pointer.default w.aio this }

/-- `explicit aio( void (*cb)(void*), void* arg )`. -/
def aioAlloc (this : B) (ans : Answer A) : Call O M B A Unit := do
  let a ← orThrow ans "nng_aio_alloc"
  modify fun w => { w with
    cell := update w.cell a (some ⟨none, none⟩)
    aio := Pointer.adopt w.aio this (some a) }

/-- `aio( aio&& rhs )`. -/
def aioMoveCtor (this rhs : B) : Call O M B A Unit :=
  modify fun w => { w with aio := Pointer.moveCtor w.aio this rhs }

/-- `aio& operator=( aio&& rhs )`. -/
def aioMoveAssign (this rhs : B) : Call O M B A Unit :=
  modify fun w =>
    let r := Pointer.moveAssign w.aio this rhs
    { w with aio := r.1 }.freeAio r.2

/-- `~aio()`. -/
def aioDestroy (this : B) : Call O M B A Unit :=
  modify fun w =>
    let r := Pointer.destroy w.aio this
    { w with aio := r.1 }.freeAio r.2

/-! ### The views -/

/-- `nng_aio_get_msg(a)`, and `get_msg()`, which makes a view of it. -/
def getMsg (a : A) : Call O M B A (Option M) := do
  return (← get).slot a

/-- `set_msg( msg&& m )`. -/
def setMsg (a : A) (m : O) : Call O M B A Unit := do
  let p ← msgRelease m
  modify fun w => w.setSlot a p

/-- `release_msg()`; the object it returns is `out`. -/
def releaseMsg (a : A) (out : O) : Call O M B A Unit := do
  let m ← getMsg a
  modify fun w => w.setSlot a none
  msgAdopt out m

/-- `socket_view::send( aio_view a )`, `ctx_view::send( aio_view a )`. -/
def send (x : Endpoint) (a : A) : Call O M B A Unit :=
  modify fun w => w.setOp a (some (.send x))

/-- `socket_view::recv( aio_view a )`, `ctx_view::recv( aio_view a )`. -/
def recv (x : Endpoint) (a : A) : Call O M B A Unit :=
  modify fun w => w.setOp a (some (.recv x))

/-! ### Runs -/

/-- The steps of the program, and those of nng: the completions, and the end of a
message that it has taken. -/
inductive Op (O M B A : Type)
  | msgDefault (this : O)
  | msgAlloc (this : O) (ans : Answer M)
  | msgMoveCtor (this rhs : O)
  | msgMoveAssign (this rhs : O)
  | msgDestroy (this : O)
  | aioDefault (this : B)
  | aioAlloc (this : B) (ans : Answer A)
  | aioMoveCtor (this rhs : B)
  | aioMoveAssign (this rhs : B)
  | aioDestroy (this : B)
  | setMsg (a : A) (m : O)
  | getMsg (a : A)
  | releaseMsg (a : A) (out : O)
  | send (x : Endpoint) (a : A)
  | recv (x : Endpoint) (a : A)
  | sendDone (x : Endpoint) (a : A) (r : Error)
  | recvDone (x : Endpoint) (a : A) (ans : Answer M)
  | dispose (m : M)

def Op.call : Op O M B A → Call O M B A Unit
  | .msgDefault this => Aio.msgDefault this
  | .msgAlloc this ans => Aio.msgAlloc this ans
  | .msgMoveCtor this rhs => Aio.msgMoveCtor this rhs
  | .msgMoveAssign this rhs => Aio.msgMoveAssign this rhs
  | .msgDestroy this => Aio.msgDestroy this
  | .aioDefault this => Aio.aioDefault this
  | .aioAlloc this ans => Aio.aioAlloc this ans
  | .aioMoveCtor this rhs => Aio.aioMoveCtor this rhs
  | .aioMoveAssign this rhs => Aio.aioMoveAssign this rhs
  | .aioDestroy this => Aio.aioDestroy this
  | .setMsg a m => Aio.setMsg a m
  | .getMsg a => do let _ ← Aio.getMsg a
  | .releaseMsg a out => Aio.releaseMsg a out
  | .send x a => Aio.send x a
  | .recv x a => Aio.recv x a
  | .sendDone x a r => modify fun w => w.sendDone x a r
  | .recvDone _ a ans => modify fun w => w.recvDone a ans
  | .dispose m => modify fun w => w.dispose m

/-- A live aio that performs no operation. -/
def World.Idle (w : World O M B A) (a : A) : Prop := ∃ c, w.cell a = some c ∧ c.op = none

/-- A live aio that performs this operation. -/
def World.Busy (w : World O M B A) (a : A) (op : Pending) : Prop :=
  ∃ c, w.cell a = some c ∧ c.op = some op

/-- What the program must see to: constructors get fresh storage and the other
members an object, and an aio is used, or freed, while no operation is
outstanding; a look into the slot is free. (`nng_aio_free` waits for the
operation, which is its completion and then the free.) What nng sees to: the
handles it hands out are fresh, and a message that it delivers is nobody's. -/
def Enabled (w : World O M B A) : Op O M B A → Prop
  | .msgDefault this => w.msg this = none
  | .msgAlloc this ans => w.msg this = none ∧ ∀ m, ans = .ok m → w.heap m = none
  | .msgMoveCtor this rhs => w.msg this = none ∧ w.msg rhs ≠ none
  | .msgMoveAssign this rhs => w.msg this ≠ none ∧ w.msg rhs ≠ none
  | .msgDestroy this => w.msg this ≠ none
  | .aioDefault this => w.aio this = none
  | .aioAlloc this ans => w.aio this = none ∧ ∀ a, ans = .ok a → w.cell a = none
  | .aioMoveCtor this rhs => w.aio this = none ∧ w.aio rhs ≠ none
  | .aioMoveAssign this rhs => w.aio this ≠ none ∧ w.aio rhs ≠ none ∧
      (this ≠ rhs → ∀ a, Pointer.get w.aio this = some a → w.Idle a)
  | .aioDestroy this => w.aio this ≠ none ∧ ∀ a, Pointer.get w.aio this = some a → w.Idle a
  | .setMsg a m => w.Idle a ∧ w.msg m ≠ none
  | .getMsg a => w.cell a ≠ none
  | .releaseMsg a out => w.Idle a ∧ w.msg out = none
  | .send _ a => w.Idle a
  | .recv _ a => w.Idle a
  | .sendDone x a _ => w.Busy a (.send x)
  | .recvDone x a ans => w.Busy a (.recv x) ∧
      ∀ m, ans = .ok m → w.heap m = none ∨ w.taken m ≠ none
  | .dispose m => w.taken m ≠ none

/-- After an exception the run goes on with what is left. -/
def exec (w : World O M B A) (op : Op O M B A) : World O M B A := leaves op.call w

def Step (w : World O M B A) (op : Op O M B A) (w' : World O M B A) : Prop :=
  Enabled w op ∧ w' = exec w op

/-- No object and no aio exists yet; what is live, nng has taken. -/
def World.init (taken : M → Option Endpoint) : World O M B A where
  msg _ := none
  heap m := (taken m).map fun _ => ()
  aio _ := none
  cell _ := none
  taken := taken
  msgFaults := []
  aioFaults := []

end Nngpp.Aio
