import Nngpp.Core
import Nngpp.Pointer
import Nngpp.Lib.Run

/-!
The two copyable handle classes, `nng::msg` and `nng::url`.

The classes have the same text: `nng_msg_alloc`, `nng_msg_dup` and `nng_msg_free`
of the one are `nng_url_parse`, `nng_url_clone` and `nng_url_free` of the other.
They are modelled once, over the names their exceptions carry and over the
contents `C` of a handle.

What nng answers is an argument of each operation: a fresh handle or a failure.
nng itself is its heap, and the list of the handles its free function was given
while they were not live.
-/

namespace Nngpp.Copyable

open Function Lib

/-- The objects of the class, nng's live handles with their contents, and the
handles that were freed while not live. -/
structure World (O H C : Type) where
  obj : Pointer.Table O H
  heap : H → Option C
  faults : List H

/-- The nng functions named by the exceptions of the class. -/
structure Names where
  acquire : String
  copyCtor : String
  copyAssign : String

def msgNames : Names := ⟨"nng_msg_alloc", "nng_msg_dup", "nng_msg_dup"⟩

/-- The copy constructor of `url` reports the parse function. -/
def urlNames : Names := ⟨"nng_url_parse", "nng_url_parse", "nng_url_clone"⟩

variable {O H C : Type} [DecidableEq O] [DecidableEq H]

abbrev Call (O H C : Type) := EStateM Exception (World O H C)

/-! ### nng -/

/-- `nng_msg_free`, `nng_url_free`. -/
def World.free (w : World O H C) (h : H) : World O H C :=
  if w.heap h = none then { w with faults := w.faults ++ [h] }
  else { w with heap := update w.heap h none }

/-- `if( p != nullptr ) nng_msg_free(p);`. -/
def World.freeIf (w : World O H C) : Option H → World O H C
  | none => w
  | some h => w.free h

/-- `nng_msg_alloc(&m,size)`, `nng_url_parse(&u,str)`: on success the handle and
the contents it starts with. -/
def nngAcquire (this : O) : Answer (H × C) → Call O H C Error
  | .error e => return e.val
  | .ok (h, c) => do
      modify fun w => { w with
        heap := update w.heap h (some c)
        obj := update w.obj this (some (some h)) }
      return .success

/-- `nng_msg_dup(&m,src)`, `nng_url_clone(&u,src)`: on success a handle with the
contents of `src`. -/
def nngDup (this : O) (src : Option H) : Answer H → Call O H C Error
  | .error e => return e.val
  | .ok h => do
      modify fun w => { w with
        heap := update w.heap h (src.bind w.heap)
        obj := update w.obj this (some (some h)) }
      return .success

/-! ### The members -/

/-- The data member `m` (`u`) of an object. -/
def field (this : O) : Call O H C (Option H) := do
  return Pointer.get (← get).obj this

/-- A constructor: the default member initialiser and then the body. If the body
throws there is no object, and no destructor runs. -/
def construct (this : O) (body : Call O H C Unit) : Call O H C Unit := do
  modify fun w => { w with obj := Pointer.default w.obj this }
  withUndo (fun w => { w with obj := update w.obj this none }) body

/-- `msg() = default`. -/
def default (this : O) : Call O H C Unit :=
  modify fun w => { w with obj := Pointer.default w.obj this }

/-- `explicit msg( size_t size )`, `explicit url( const char* str )`. -/
def acquire (n : Names) (this : O) (ans : Answer (H × C)) : Call O H C Unit :=
  construct this do
    let r ← nngAcquire this ans
    check r n.acquire

/-- `explicit msg( nng_msg* m )`. -/
def adopt (this : O) (p : Option H) : Call O H C Unit :=
  modify fun w => { w with obj := Pointer.adopt w.obj this p }

/-- `msg( const msg& rhs )`. -/
def copyCtor (n : Names) (this rhs : O) (ans : Answer H) : Call O H C Unit :=
  construct this do
    let r ← nngDup this (← field rhs) ans
    check r n.copyCtor

/-- `msg( msg&& rhs )`. -/
def moveCtor (this rhs : O) : Call O H C Unit :=
  modify fun w => { w with obj := Pointer.moveCtor w.obj this rhs }

/-- `msg& operator=( const msg& rhs )`. -/
def copyAssign (n : Names) (this rhs : O) (ans : Answer H) : Call O H C Unit := do
  if this ≠ rhs then
    let m ← field this
    modify fun w => w.freeIf m
    let r ← nngDup this (← field rhs) ans
    check r n.copyAssign

/-- `msg& operator=( msg&& rhs )`. -/
def moveAssign (this rhs : O) : Call O H C Unit :=
  modify fun w =>
    let r := Pointer.moveAssign w.obj this rhs
    { w with obj := r.1 }.freeIf r.2

/-- `~msg()`. -/
def destroy (this : O) : Call O H C Unit :=
  modify fun w =>
    let r := Pointer.destroy w.obj this
    { w with obj := r.1 }.freeIf r.2

/-- `release()`. -/
def release (this : O) : Call O H C (Option H) :=
  modifyGet fun w =>
    let r := Pointer.release w.obj this
    (r.2, { w with obj := r.1 })

/-! ### Runs -/

/-- The operations a program can perform, with nng's answers. The last two are
not operations of the class: nng handing the caller a fresh handle, and the
caller freeing one that is its own. -/
inductive Op (O H C : Type)
  | default (this : O)
  | acquire (this : O) (ans : Answer (H × C))
  | adopt (this : O) (p : Option H)
  | copyCtor (this rhs : O) (ans : Answer H)
  | copyAssign (this rhs : O) (ans : Answer H)
  | moveCtor (this rhs : O)
  | moveAssign (this rhs : O)
  | destroy (this : O)
  | release (this : O)
  | handOut (h : H) (c : C)
  | freeOwn (h : H)

def Op.call (n : Names) : Op O H C → Call O H C Unit
  | .default this => Copyable.default this
  | .acquire this ans => Copyable.acquire n this ans
  | .adopt this p => Copyable.adopt this p
  | .copyCtor this rhs ans => Copyable.copyCtor n this rhs ans
  | .copyAssign this rhs ans => Copyable.copyAssign n this rhs ans
  | .moveCtor this rhs => Copyable.moveCtor this rhs
  | .moveAssign this rhs => Copyable.moveAssign this rhs
  | .destroy this => Copyable.destroy this
  | .release this => do let _ ← Copyable.release this
  | .handOut h c => modify fun w => { w with heap := update w.heap h (some c) }
  | .freeOwn h => modify fun w => w.free h

/-- What the program must see to: constructors get fresh storage, the other
members an object, copies a non-null source, and the adopting constructor a
handle that is live and nobody else's. What nng sees to: a handle it hands out
is fresh. In a copy assignment it may be the one that has just been freed. -/
def Enabled (w : World O H C) : Op O H C → Prop
  | .default this => w.obj this = none
  | .acquire this ans => w.obj this = none ∧ ∀ h c, ans = .ok (h, c) → w.heap h = none
  | .adopt this p => w.obj this = none ∧
      ∀ h, p = some h → w.heap h ≠ none ∧ ∀ o, Pointer.get w.obj o ≠ some h
  | .copyCtor this rhs ans => w.obj this = none ∧ Pointer.get w.obj rhs ≠ none ∧
      ∀ h, ans = .ok h → w.heap h = none
  | .copyAssign this rhs ans => w.obj this ≠ none ∧ Pointer.get w.obj rhs ≠ none ∧
      (this ≠ rhs → ∀ h, ans = .ok h → (w.freeIf (Pointer.get w.obj this)).heap h = none)
  | .moveCtor this rhs => w.obj this = none ∧ w.obj rhs ≠ none
  | .moveAssign this rhs => w.obj this ≠ none ∧ w.obj rhs ≠ none
  | .destroy this => w.obj this ≠ none
  | .release this => w.obj this ≠ none
  | .handOut h _ => w.heap h = none
  | .freeOwn h => w.heap h ≠ none ∧ ∀ o, Pointer.get w.obj o ≠ some h

/-- After an exception the run goes on with what is left. -/
def exec (n : Names) (w : World O H C) (op : Op O H C) : World O H C := leaves (op.call n) w

def Step (n : Names) (w : World O H C) (op : Op O H C) (w' : World O H C) : Prop :=
  Enabled w op ∧ w' = exec n w op

/-- No object exists yet; nng may have handles of others. -/
def World.init (heap : H → Option C) : World O H C where
  obj _ := none
  heap := heap
  faults := []

end Nngpp.Copyable
