import Nngpp.Core
import Nngpp.Lib.Custody
import Nngpp.Lib.Run

/-!
`nng::buffer`, and the calls of nng that give blocks to buffers and take them.

A buffer is a pointer and a size, and it has to keep the two in step, because
`nng_free` wants the size the block was allocated with. The memory is therefore
kept with the bytes of every live block: their number is the size of the
allocation. A free with another size, or of a block that is not live, and a
`memcpy` that leaves its blocks are recorded as misuses; the memory then stays
as it is.
-/

namespace Nngpp

open Function

/-! ### C strings -/

/-- What a `const char*` points to, up to its terminator. -/
abbrev CString := { s : List UInt8 // 0 ∉ s }

/-- `strlen`. -/
def strlen (data : List UInt8) : ℕ := (data.takeWhile (· ≠ 0)).length

theorem strlen_terminated (s : CString) : strlen (s.val ++ [0]) = s.val.length := by
  have hall : ∀ b ∈ s.val, (decide (b ≠ 0)) = true := by
    intro b hb
    have hne : b ≠ 0 := fun h => s.property (h ▸ hb)
    simpa using hne
  rw [strlen, List.takeWhile_append_of_pos hall]
  simp

/-! ### Buffers and memory -/

/-- The data members of a `buffer`. -/
structure Buffer (B : Type) where
  d : Option B
  s : ℕ

/-- The flag `flag::alloc`, whatever bits nng gives it. -/
structure AllocFlag where
  bits : BitVec 32
  ne_zero : bits ≠ 0#32

namespace Buffer

/-- Calls no allocator would forgive. -/
inductive Misuse (B : Type)
  | free (d : B) (s : ℕ)
  | memcpy (d src : Option B) (n : ℕ)

/-- The buffers, the live blocks with their bytes, which of them the caller has
for itself (and of what size), and the misuses so far. -/
structure Memory (O B : Type) where
  obj : O → Option (Buffer B)
  heap : B → Option (List UInt8)
  own : B × ℕ → Bool
  misuses : List (Misuse B)

variable {O B : Type} [DecidableEq O] [DecidableEq B]

abbrev Call (O B : Type) := EStateM Exception (Memory O B)

namespace Memory

/-- The data members of an object. -/
def fields (m : Memory O B) (this : O) : Buffer B := (m.obj this).getD ⟨none, 0⟩

/-- `nng_free(d,s)`. -/
def nngFree (m : Memory O B) (d : B) (s : ℕ) : Memory O B :=
  if (m.heap d).map List.length = some s then { m with heap := update m.heap d none }
  else { m with misuses := m.misuses ++ [.free d s] }

/-- `if( d != nullptr ) nng_free(d,s);`. -/
def freeIf (m : Memory O B) (b : Buffer B) : Memory O B :=
  match b.d with
  | none => m
  | some d => m.nngFree d b.s

/-- `memcpy(d,src,n)`: both blocks have to have `n` bytes, and to be different. -/
def memcpy (m : Memory O B) (d src : Option B) (n : ℕ) : Memory O B :=
  if n = 0 then m
  else match d, src with
    | some d, some src =>
        match m.heap d, m.heap src with
        | some old, some bytes =>
            if d ≠ src ∧ n ≤ old.length ∧ n ≤ bytes.length then
              { m with heap := update m.heap d (some (bytes.take n ++ old.drop n)) }
            else { m with misuses := m.misuses ++ [.memcpy (some d) (some src) n] }
        | _, _ => { m with misuses := m.misuses ++ [.memcpy (some d) (some src) n] }
    | _, _ => { m with misuses := m.misuses ++ [.memcpy d src n] }

/-- The caller gets a block for itself. -/
def keep (m : Memory O B) (b : Buffer B) : Memory O B :=
  match b.d with
  | none => m
  | some d => { m with own := update m.own (d, b.s) true }

/-- The caller no longer has a block for itself. -/
def part (m : Memory O B) (b : Buffer B) : Memory O B :=
  match b.d with
  | none => m
  | some d => { m with own := update m.own (d, b.s) false }

/-- `buffer() = default`. -/
def default (m : Memory O B) (this : O) : Memory O B :=
  { m with obj := update m.obj this (some ⟨none, 0⟩) }

/-- `explicit buffer( T* d, size_t s )`. -/
def adopt (m : Memory O B) (this : O) (d : Option B) (s : ℕ) : Memory O B :=
  { m with obj := update m.obj this (some ⟨d, s⟩) }

/-- `buffer( buffer&& rhs )`. -/
def moveCtor (m : Memory O B) (this rhs : O) : Memory O B :=
  { m with obj := update (update m.obj this (some (m.fields rhs))) rhs (some ⟨none, 0⟩) }

/-- `buffer& operator=( buffer&& rhs )`. -/
def moveAssign (m : Memory O B) (this rhs : O) : Memory O B :=
  if this ≠ rhs then
    let m := m.freeIf (m.fields this)
    { m with obj := update (update m.obj this (some (m.fields rhs))) rhs (some ⟨none, 0⟩) }
  else m

/-- `~buffer()`. -/
def destroy (m : Memory O B) (this : O) : Memory O B :=
  let m := m.freeIf (m.fields this)
  { m with obj := update m.obj this none }

/-- `release()`. -/
def release (m : Memory O B) (this : O) : Option B × Memory O B :=
  ((m.fields this).d, { m with obj := update m.obj this (some ⟨none, 0⟩) })

end Memory

/-! ### nng -/

/-- `nng_alloc(sz)`: null, or a fresh block with whatever is in it. -/
def nngAlloc (ans : Option (B × List UInt8)) : Call O B (Option B) :=
  match ans with
  | none => return none
  | some (d, bytes) => do
      modify fun m => { m with heap := update m.heap d (some bytes) }
      return some d

/-- `nng_recv(s,&data,&size,flags)`: the pointer and the size it writes. Without
the flag it writes into memory of the caller and gives no block. -/
def nngRecv (alloc : AllocFlag) (flags : BitVec 32) (ans : Answer (B × List UInt8)) :
    Call O B (Answer (Option B × ℕ)) :=
  match ans with
  | .error e => return .error e
  | .ok (d, bytes) => do
      if flags &&& alloc.bits ≠ 0#32 then
        modify fun m => { m with heap := update m.heap d (some bytes) }
        return .ok (some d, bytes.length)
      else return .ok (none, bytes.length)

/-- `nng_<kind>_get_string(s,name,&data)`: a fresh block with a string and its
terminator. -/
def nngGetString (ans : Answer (B × CString)) : Call O B (Answer B) :=
  match ans with
  | .error e => return .error e
  | .ok (d, str) => do
      modify fun m => { m with heap := update m.heap d (some (str.val ++ [0])) }
      return .ok d

/-- `nng_send(s,d,size,flags)`: frees the block when it succeeds with the flag
set. -/
def nngSend (alloc : AllocFlag) (b : Buffer B) (flags : BitVec 32) (r : Error) :
    Call O B Error := do
  if r = .success ∧ flags &&& alloc.bits ≠ 0#32 then
    modify fun m => m.freeIf b
  return r

/-! ### The members that can throw -/

def setD (this : O) (d : Option B) : Call O B Unit :=
  modify fun m => { m with obj := update m.obj this (some { m.fields this with d := d }) }

def setS (this : O) (s : ℕ) : Call O B Unit :=
  modify fun m => { m with obj := update m.obj this (some { m.fields this with s := s }) }

/-- A constructor that throws leaves no object, and no destructor runs. -/
def construct (this : O) (body : Call O B Unit) : Call O B Unit :=
  withUndo (fun m => { m with obj := update m.obj this none }) body

/-- `explicit buffer( size_t sz )`. -/
def sized (this : O) (sz : ℕ) (ans : Option (B × List UInt8)) : Call O B Unit :=
  construct this do
    let d ← nngAlloc ans
    modify fun m => m.adopt this d sz
    if d.isNone then
      setS this 0
      throw ⟨.nomem, "nng_alloc"⟩

/-- `buffer( const buffer& rhs )`: delegates to the constructor with a size. -/
def copyCtor (this rhs : O) (ans : Option (B × List UInt8)) : Call O B Unit := do
  sized this ((← get).fields rhs).s ans
  modify fun m => m.memcpy (m.fields this).d (m.fields rhs).d (m.fields this).s

/-- `buffer& operator=( const buffer& rhs )`. -/
def copyAssign (this rhs : O) (ans : Option (B × List UInt8)) : Call O B Unit := do
  if this ≠ rhs then
    let m ← get
    if (m.fields this).s ≠ (m.fields rhs).s then
      modify fun m => m.freeIf (m.fields this)
      let d ← nngAlloc ans
      setD this d
      setS this (m.fields rhs).s
      if d.isNone then
        setS this 0
        throw ⟨.nomem, "nng_alloc"⟩
    modify fun m => m.memcpy (m.fields this).d (m.fields rhs).d (m.fields this).s

/-! ### The functions of the views -/

/-- `buffer socket_view::recv( int flags ) const`, into the object `this`. -/
def recv (alloc : AllocFlag) (this : O) (flags : BitVec 32) (ans : Answer (B × List UInt8)) :
    Call O B Unit := do
  let (data, size) ← orThrow (← nngRecv alloc (flags ||| alloc.bits) ans) "nng_recv"
  modify fun m => m.adopt this data size

/-- `buffer get_opt_string( const char* name ) const`, into the object `this`. -/
def getOptString (source : String) (this : O) (ans : Answer (B × CString)) : Call O B Unit := do
  let data ← orThrow (← nngGetString ans) source
  modify fun m => m.adopt this (some data) (strlen ((m.heap data).getD []) + 1)

/-- `void socket_view::send( buffer&& buf, int flags ) const`. -/
def send (alloc : AllocFlag) (buf : O) (flags : BitVec 32) (r : Error) : Call O B Unit := do
  let r ← nngSend alloc ((← get).fields buf) (flags ||| alloc.bits) r
  check r "nng_send"
  modify fun m => (m.release buf).2

/-- `void socket_view::send( view buf, int flags ) const`. -/
def sendView (alloc : AllocFlag) (buf : Buffer B) (flags : BitVec 32) (r : Error) :
    Call O B Unit := do
  let r ← nngSend alloc buf (flags &&& ~~~alloc.bits) r
  check r "nng_send"

/-! ### Runs -/

/-- The operations a program can perform, with nng's answers. The last two are
the caller's own dealings with nng: a block that nng gives it, and one of its
blocks that it frees. The caller gives a block away by having it adopted, and gets
one by `release()`. -/
inductive Op (O B : Type)
  | default (this : O)
  | sized (this : O) (sz : ℕ) (ans : Option (B × List UInt8))
  | adopt (this : O) (d : Option B) (s : ℕ)
  | copyCtor (this rhs : O) (ans : Option (B × List UInt8))
  | copyAssign (this rhs : O) (ans : Option (B × List UInt8))
  | moveCtor (this rhs : O)
  | moveAssign (this rhs : O)
  | destroy (this : O)
  | release (this : O)
  | recv (this : O) (flags : BitVec 32) (ans : Answer (B × List UInt8))
  | getOptString (source : String) (this : O) (ans : Answer (B × CString))
  | send (this : O) (flags : BitVec 32) (r : Error)
  | handOut (d : B) (bytes : List UInt8)
  | freeOwn (d : B) (s : ℕ)

def Op.call (alloc : AllocFlag) : Op O B → Call O B Unit
  | .default this => modify fun m => m.default this
  | .sized this sz ans => Buffer.sized this sz ans
  | .adopt this d s => modify fun m => (m.part ⟨d, s⟩).adopt this d s
  | .copyCtor this rhs ans => Buffer.copyCtor this rhs ans
  | .copyAssign this rhs ans => Buffer.copyAssign this rhs ans
  | .moveCtor this rhs => modify fun m => m.moveCtor this rhs
  | .moveAssign this rhs => modify fun m => m.moveAssign this rhs
  | .destroy this => modify fun m => m.destroy this
  | .release this => modify fun m => (m.release this).2.keep (m.fields this)
  | .recv this flags ans => Buffer.recv alloc this flags ans
  | .getOptString source this ans => Buffer.getOptString source this ans
  | .send this flags r => Buffer.send alloc this flags r
  | .handOut d bytes => modify fun m =>
      { m with heap := update m.heap d (some bytes) }.keep ⟨some d, bytes.length⟩
  | .freeOwn d s => modify fun m => (m.nngFree d s).part ⟨some d, s⟩

/-- What `nng_alloc(sz)` may return. -/
def Allocates (m : Memory O B) (sz : ℕ) (ans : Option (B × List UInt8)) : Prop :=
  ∀ d bytes, ans = some (d, bytes) → m.heap d = none ∧ bytes.length = sz

/-- What the program must see to: constructors get fresh storage, the other
members an object, and the adopting constructor a block of that size which is
the caller's own. What nng sees to: a block it hands out is fresh, and as long
as it says. -/
def Enabled (m : Memory O B) : Op O B → Prop
  | .default this => m.obj this = none
  | .sized this sz ans => m.obj this = none ∧ Allocates m sz ans
  | .adopt this d s => m.obj this = none ∧ (d = none → s = 0) ∧ ∀ b, d = some b → m.own (b, s) = true
  | .copyCtor this rhs ans =>
      m.obj this = none ∧ m.obj rhs ≠ none ∧ Allocates m (m.fields rhs).s ans
  | .copyAssign this rhs ans => m.obj this ≠ none ∧ m.obj rhs ≠ none ∧
      Allocates (m.freeIf (m.fields this)) (m.fields rhs).s ans
  | .moveCtor this rhs => m.obj this = none ∧ m.obj rhs ≠ none
  | .moveAssign this rhs => m.obj this ≠ none ∧ m.obj rhs ≠ none
  | .destroy this => m.obj this ≠ none
  | .release this => m.obj this ≠ none
  | .recv this _ ans => m.obj this = none ∧ ∀ d bytes, ans = .ok (d, bytes) → m.heap d = none
  | .getOptString _ this ans => m.obj this = none ∧ ∀ d str, ans = .ok (d, str) → m.heap d = none
  | .send this _ _ => m.obj this ≠ none
  | .handOut d _ => m.heap d = none
  | .freeOwn d s => m.own (d, s) = true

/-- After an exception the run goes on with what is left. -/
def exec (alloc : AllocFlag) (m : Memory O B) (op : Op O B) : Memory O B :=
  leaves (op.call alloc) m

def Step (alloc : AllocFlag) (m : Memory O B) (op : Op O B) (m' : Memory O B) : Prop :=
  Enabled m op ∧ m' = exec alloc m op

/-- No buffer exists yet; the blocks there are are the caller's. -/
def Memory.init (heap : B → Option (List UInt8)) : Memory O B where
  obj _ := none
  heap := heap
  own e := (heap e.1).map List.length = some e.2
  misuses := []

end Buffer

end Nngpp
