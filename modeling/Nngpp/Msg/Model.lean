import Nngpp.Core
import Nngpp.Lib.BigEndian
import Mathlib.Logic.Function.Basic

/-!
The bytes of a message: `msg_body`, `msg_header`, and `msg_view::realloc`.

A message has two byte sequences. The two accessor classes have one text over
two families of nng functions, `nng_msg_X` and `nng_msg_header_X`; a family is
written here once, over the `Region` it works on, and so is each kind of
wrapper. The members below are the wrappers with the function that the source
calls and the name that it throws.

nng keeps the messages in a heap, which also has the messages that are nobody's
business here. An argument `fails` is nng's choice to refuse a call.
-/

namespace Nngpp.Msg

open Function Lib

/-- The two byte sequences of an `nng_msg`. -/
inductive Region
  | header | body
  deriving DecidableEq, Repr

@[ext]
structure Message where
  header : List UInt8
  body : List UInt8
  deriving DecidableEq, Repr

namespace Message

def seq (msg : Message) : Region → List UInt8
  | .header => msg.header
  | .body => msg.body

def withSeq (msg : Message) (r : Region) (xs : List UInt8) : Message :=
  match r with
  | .header => { msg with header := xs }
  | .body => { msg with body := xs }

@[simp] theorem seq_withSeq (msg : Message) (r : Region) (xs : List UInt8) :
    (msg.withSeq r xs).seq r = xs := by
  cases r <;> rfl

theorem seq_withSeq_of_ne (msg : Message) {r r' : Region} (h : r' ≠ r) (xs : List UInt8) :
    (msg.withSeq r xs).seq r' = msg.seq r' := by
  cases r <;> cases r' <;> first | rfl | exact absurd rfl h

@[simp] theorem withSeq_seq (msg : Message) (r : Region) : msg.withSeq r (msg.seq r) = msg := by
  cases r <;> rfl

@[simp] theorem withSeq_withSeq (msg : Message) (r : Region) (xs ys : List UInt8) :
    (msg.withSeq r xs).withSeq r ys = msg.withSeq r ys := by
  cases r <;> rfl

end Message

/-- `struct view`: the memory from `d` on, and the size `s`. -/
structure View where
  data : List UInt8
  size : ℕ
  deriving DecidableEq, Repr

/-- The bytes a view covers. -/
def View.bytes (v : View) : List UInt8 := v.data.take v.size

/-- `uint16_t`, `uint32_t`, `uint64_t`. -/
inductive Width
  | u16 | u32 | u64
  deriving DecidableEq, Repr

def Width.bytes : Width → ℕ
  | .u16 => 2
  | .u32 => 4
  | .u64 => 8

abbrev Width.Value (w : Width) := BitVec (8 * w.bytes)

/-- The integer in network byte order. -/
def Width.encode (w : Width) (val : w.Value) : List UInt8 := BigEndian.encode w.bytes val.toNat

def Width.decode (w : Width) (bytes : List UInt8) : w.Value :=
  BitVec.ofNat (8 * w.bytes) (BigEndian.decode bytes)

@[simp] theorem Width.length_encode (w : Width) (val : w.Value) :
    (w.encode val).length = w.bytes :=
  BigEndian.length_encode _ _

@[simp] theorem Width.decode_encode (w : Width) (val : w.Value) : w.decode (w.encode val) = val :=
  BigEndian.ofNat_decode_encode val

variable {H : Type}

abbrev Heap (H : Type) := H → Message

abbrev Call (H : Type) := EStateM Exception (Heap H)

/-- The messages that are live, as the functions on their bytes see them. -/
def bytesOf (live : H → Option Message) : Heap H := fun h => (live h).getD ⟨[], []⟩

/-- A function on bytes leaves every message where it is. -/
def putBytes (live : H → Option Message) (s : Heap H) : H → Option Message :=
  fun h => (live h).map fun _ => s h

theorem putBytes_bytesOf (live : H → Option Message) : putBytes live (bytesOf live) = live := by
  ext1 h
  cases hh : live h <;> simp [putBytes, bytesOf, hh]

theorem putBytes_update [DecidableEq H] {live : H → Option Message} {m : H} (hm : live m ≠ none)
    (msg : Message) : putBytes live (update (bytesOf live) m msg) = update live m (some msg) := by
  obtain ⟨old, hold⟩ := Option.ne_none_iff_exists'.mp hm
  ext1 h
  rcases eq_or_ne h m with rfl | hne
  · simp [putBytes, hold]
  · rw [update_of_ne hne, putBytes, update_of_ne hne]
    exact congrFun (putBytes_bytesOf live) h

/-! ### nng

`nngX .body` is `nng_msg_X`, `nngX .header` is `nng_msg_header_X`. -/

section Nng

/-- `nng_msg_body`, `nng_msg_header`: the memory the pointer leads to. -/
def nngData (r : Region) (m : H) : Call H (List UInt8) := do
  return ((← get) m).seq r

def nngLen (r : Region) (m : H) : Call H ℕ := do
  return (((← get) m).seq r).length

variable [DecidableEq H]

/-- Give one sequence of one message new contents. -/
def edit (r : Region) (m : H) (f : List UInt8 → List UInt8) (s : Heap H) : Heap H :=
  update s m ((s m).withSeq r (f ((s m).seq r)))

def nngClear (r : Region) (m : H) : Call H Unit :=
  modify (edit r m fun _ => [])

/-- A call that puts bytes into a sequence: nng may refuse it. -/
def nngPut (r : Region) (m : H) (f : List UInt8 → List UInt8) (fails : Option Failure) :
    Call H Error :=
  match fails with
  | some e => return e.val
  | none => do
      modify (edit r m f)
      return .success

/-- A call that takes bytes off a sequence: they have to be there. -/
def nngRemove (r : Region) (m : H) (f : List UInt8 → List UInt8) (size : ℕ) : Call H Error := do
  if (((← get) m).seq r).length < size then
    return .inval
  else
    modify (edit r m f)
    return .success

def nngAppend (r : Region) (m : H) (data : List UInt8) (size : ℕ) (fails : Option Failure) :
    Call H Error :=
  nngPut r m (· ++ data.take size) fails

def nngInsert (r : Region) (m : H) (data : List UInt8) (size : ℕ) (fails : Option Failure) :
    Call H Error :=
  nngPut r m (data.take size ++ ·) fails

def nngTrim (r : Region) (m : H) (size : ℕ) : Call H Error :=
  nngRemove r m (·.drop size) size

def nngChop (r : Region) (m : H) (size : ℕ) : Call H Error :=
  nngRemove r m (fun xs => xs.take (xs.length - size)) size

def nngAppendU (w : Width) (r : Region) (m : H) (val : w.Value) (fails : Option Failure) :
    Call H Error :=
  nngAppend r m (w.encode val) w.bytes fails

def nngInsertU (w : Width) (r : Region) (m : H) (val : w.Value) (fails : Option Failure) :
    Call H Error :=
  nngInsert r m (w.encode val) w.bytes fails

/-- `nng_msg_trim_uN(m,&val)`: `val` is written only when the call succeeds. -/
def nngTrimU (w : Width) (r : Region) (m : H) (val : Option w.Value) :
    Call H (Error × Option w.Value) := do
  let xs ← nngData r m
  let e ← nngTrim r m w.bytes
  return (e, if e = .success then some (w.decode (xs.take w.bytes)) else val)

/-- `nng_msg_chop_uN(m,&val)`. -/
def nngChopU (w : Width) (r : Region) (m : H) (val : Option w.Value) :
    Call H (Error × Option w.Value) := do
  let xs ← nngData r m
  let e ← nngChop r m w.bytes
  return (e, if e = .success then some (w.decode (xs.drop (xs.length - w.bytes))) else val)

/-- The bytes a sequence of the given size starts with; when it grows, nng leaves
in the new ones what it finds there. -/
def resize (size : ℕ) (fill : ℕ → UInt8) (xs : List UInt8) : List UInt8 :=
  xs.take size ++ (List.range (size - xs.length)).map fill

/-- `nng_msg_realloc`. -/
def nngRealloc (m : H) (size : ℕ) (fill : ℕ → UInt8) (fails : Option Failure) : Call H Error :=
  nngPut .body m (resize size fill) fails

end Nng

/-! ### The wrappers

Each with the family it forwards to and the name it throws. A local variable
which has not been initialised is `none`. -/

section Wrappers

variable (r : Region) (source : String) (w : Width) (m : H)

def viewOf : Call H View := do
  return ⟨← nngData r m, ← nngLen r m⟩

variable [DecidableEq H]

def append (v : View) (fails : Option Failure) : Call H Unit := do
  let e ← nngAppend r m v.data v.size fails
  check e source

def insert (v : View) (fails : Option Failure) : Call H Unit := do
  let e ← nngInsert r m v.data v.size fails
  check e source

def trim (size : ℕ) : Call H Unit := do
  let e ← nngTrim r m size
  check e source

def chop (size : ℕ) : Call H Unit := do
  let e ← nngChop r m size
  check e source

def appendU (val : w.Value) (fails : Option Failure) : Call H Unit := do
  let e ← nngAppendU w r m val fails
  check e source

def insertU (val : w.Value) (fails : Option Failure) : Call H Unit := do
  let e ← nngInsertU w r m val fails
  check e source

def trimU : Call H (Option w.Value) := do
  let (e, val) ← nngTrimU w r m none
  check e source
  return val

def chopU : Call H (Option w.Value) := do
  let (e, val) ← nngChopU w r m none
  check e source
  return val

end Wrappers

namespace MsgBody

def data (m : H) : Call H (List UInt8) := nngData .body m

def size (m : H) : Call H ℕ := nngLen .body m

def get (m : H) : Call H View := viewOf .body m

variable [DecidableEq H]

def clear (m : H) : Call H Unit := nngClear .body m

def append (m : H) (v : View) (fails : Option Failure) : Call H Unit :=
  Msg.append .body "nng_msg_append" m v fails

def insert (m : H) (v : View) (fails : Option Failure) : Call H Unit :=
  Msg.insert .body "nng_msg_insert" m v fails

def trim (m : H) (size : ℕ) : Call H Unit := Msg.trim .body "nng_msg_trim" m size

def chop (m : H) (size : ℕ) : Call H Unit := Msg.chop .body "nng_msg_chop" m size

def appendU16 (m : H) (val : Width.u16.Value) (fails : Option Failure) : Call H Unit :=
  appendU .body "nng_msg_append_u16" .u16 m val fails

def appendU32 (m : H) (val : Width.u32.Value) (fails : Option Failure) : Call H Unit :=
  appendU .body "nng_msg_append_u32" .u32 m val fails

def appendU64 (m : H) (val : Width.u64.Value) (fails : Option Failure) : Call H Unit :=
  appendU .body "nng_msg_append_u64" .u64 m val fails

def insertU16 (m : H) (val : Width.u16.Value) (fails : Option Failure) : Call H Unit :=
  insertU .body "nng_msg_insert_u16" .u16 m val fails

def insertU32 (m : H) (val : Width.u32.Value) (fails : Option Failure) : Call H Unit :=
  insertU .body "nng_msg_insert_u32" .u32 m val fails

def insertU64 (m : H) (val : Width.u64.Value) (fails : Option Failure) : Call H Unit :=
  insertU .body "nng_msg_insert_u64" .u64 m val fails

def trimU16 (m : H) : Call H (Option Width.u16.Value) := trimU .body "nng_msg_trim_u16" .u16 m

def trimU32 (m : H) : Call H (Option Width.u32.Value) := trimU .body "nng_msg_trim_u32" .u32 m

def trimU64 (m : H) : Call H (Option Width.u64.Value) := trimU .body "nng_msg_trim_u64" .u64 m

def chopU16 (m : H) : Call H (Option Width.u16.Value) := chopU .body "nng_msg_chop_u16" .u16 m

def chopU32 (m : H) : Call H (Option Width.u32.Value) := chopU .body "nng_msg_chop_u32" .u32 m

def chopU64 (m : H) : Call H (Option Width.u64.Value) := chopU .body "nng_msg_chop_u64" .u64 m

end MsgBody

namespace MsgHeader

def data (m : H) : Call H (List UInt8) := nngData .header m

def size (m : H) : Call H ℕ := nngLen .header m

def get (m : H) : Call H View := viewOf .header m

variable [DecidableEq H]

def clear (m : H) : Call H Unit := nngClear .header m

def append (m : H) (v : View) (fails : Option Failure) : Call H Unit :=
  Msg.append .header "nng_msg_header_append" m v fails

def insert (m : H) (v : View) (fails : Option Failure) : Call H Unit :=
  Msg.insert .header "nng_msg_header_insert" m v fails

def trim (m : H) (size : ℕ) : Call H Unit := Msg.trim .header "nng_msg_header_trim" m size

def chop (m : H) (size : ℕ) : Call H Unit := Msg.chop .header "nng_msg_header_chop" m size

def appendU16 (m : H) (val : Width.u16.Value) (fails : Option Failure) : Call H Unit :=
  appendU .header "nng_msg_header_append_u16" .u16 m val fails

def appendU32 (m : H) (val : Width.u32.Value) (fails : Option Failure) : Call H Unit :=
  appendU .header "nng_msg_header_append_u32" .u32 m val fails

def appendU64 (m : H) (val : Width.u64.Value) (fails : Option Failure) : Call H Unit :=
  appendU .header "nng_msg_header_append_u64" .u64 m val fails

def insertU16 (m : H) (val : Width.u16.Value) (fails : Option Failure) : Call H Unit :=
  insertU .header "nng_msg_header_insert_u16" .u16 m val fails

def insertU32 (m : H) (val : Width.u32.Value) (fails : Option Failure) : Call H Unit :=
  insertU .header "nng_msg_header_insert_u32" .u32 m val fails

def insertU64 (m : H) (val : Width.u64.Value) (fails : Option Failure) : Call H Unit :=
  insertU .header "nng_msg_header_insert_u64" .u64 m val fails

def trimU16 (m : H) : Call H (Option Width.u16.Value) :=
  trimU .header "nng_msg_header_trim_u16" .u16 m

def trimU32 (m : H) : Call H (Option Width.u32.Value) :=
  trimU .header "nng_msg_header_trim_u32" .u32 m

def trimU64 (m : H) : Call H (Option Width.u64.Value) :=
  trimU .header "nng_msg_header_trim_u64" .u64 m

def chopU16 (m : H) : Call H (Option Width.u16.Value) :=
  chopU .header "nng_msg_header_chop_u16" .u16 m

def chopU32 (m : H) : Call H (Option Width.u32.Value) :=
  chopU .header "nng_msg_header_chop_u32" .u32 m

def chopU64 (m : H) : Call H (Option Width.u64.Value) :=
  chopU .header "nng_msg_header_chop_u64" .u64 m

end MsgHeader

/-- An object of `msg_header` or of `msg_body`. -/
structure Accessor (H : Type) where
  region : Region
  m : H
  deriving DecidableEq, Repr

namespace MsgView

def header (m : H) : Accessor H := ⟨.header, m⟩

def body (m : H) : Accessor H := ⟨.body, m⟩

variable [DecidableEq H]

def realloc (m : H) (size : ℕ) (fill : ℕ → UInt8) (fails : Option Failure) : Call H Unit := do
  let e ← nngRealloc m size fill fails
  check e "nng_msg_realloc"

end MsgView

/-! ### Operations -/

/-- A call of a member of an accessor, with nng's choices. -/
inductive Op
  | data
  | size
  | get
  | clear
  | append (v : View) (fails : Option Failure)
  | insert (v : View) (fails : Option Failure)
  | trim (size : ℕ)
  | chop (size : ℕ)
  | appendU (w : Width) (val : w.Value) (fails : Option Failure)
  | insertU (w : Width) (val : w.Value) (fails : Option Failure)
  | trimU (w : Width)
  | chopU (w : Width)

/-- What a call returns. -/
inductive Ret
  | unit
  | bytes (xs : List UInt8)
  | size (n : ℕ)
  | view (v : View)
  | value (w : Width) (val : Option w.Value)
  deriving DecidableEq, Repr

section Calls

variable [DecidableEq H]

def done (x : Call H Unit) : Call H Ret := do
  x
  return .unit

def MsgBody.call (m : H) : Op → Call H Ret
  | .data => Ret.bytes <$> data m
  | .size => Ret.size <$> size m
  | .get => Ret.view <$> get m
  | .clear => done (clear m)
  | .append v fails => done (append m v fails)
  | .insert v fails => done (insert m v fails)
  | .trim size => done (trim m size)
  | .chop size => done (chop m size)
  | .appendU .u16 val fails => done (appendU16 m val fails)
  | .appendU .u32 val fails => done (appendU32 m val fails)
  | .appendU .u64 val fails => done (appendU64 m val fails)
  | .insertU .u16 val fails => done (insertU16 m val fails)
  | .insertU .u32 val fails => done (insertU32 m val fails)
  | .insertU .u64 val fails => done (insertU64 m val fails)
  | .trimU .u16 => Ret.value .u16 <$> trimU16 m
  | .trimU .u32 => Ret.value .u32 <$> trimU32 m
  | .trimU .u64 => Ret.value .u64 <$> trimU64 m
  | .chopU .u16 => Ret.value .u16 <$> chopU16 m
  | .chopU .u32 => Ret.value .u32 <$> chopU32 m
  | .chopU .u64 => Ret.value .u64 <$> chopU64 m

def MsgHeader.call (m : H) : Op → Call H Ret
  | .data => Ret.bytes <$> data m
  | .size => Ret.size <$> size m
  | .get => Ret.view <$> get m
  | .clear => done (clear m)
  | .append v fails => done (append m v fails)
  | .insert v fails => done (insert m v fails)
  | .trim size => done (trim m size)
  | .chop size => done (chop m size)
  | .appendU .u16 val fails => done (appendU16 m val fails)
  | .appendU .u32 val fails => done (appendU32 m val fails)
  | .appendU .u64 val fails => done (appendU64 m val fails)
  | .insertU .u16 val fails => done (insertU16 m val fails)
  | .insertU .u32 val fails => done (insertU32 m val fails)
  | .insertU .u64 val fails => done (insertU64 m val fails)
  | .trimU .u16 => Ret.value .u16 <$> trimU16 m
  | .trimU .u32 => Ret.value .u32 <$> trimU32 m
  | .trimU .u64 => Ret.value .u64 <$> trimU64 m
  | .chopU .u16 => Ret.value .u16 <$> chopU16 m
  | .chopU .u32 => Ret.value .u32 <$> chopU32 m
  | .chopU .u64 => Ret.value .u64 <$> chopU64 m

def Accessor.call (a : Accessor H) (op : Op) : Call H Ret :=
  match a.region with
  | .header => MsgHeader.call a.m op
  | .body => MsgBody.call a.m op

end Calls

end Nngpp.Msg
