import Nngpp.Calls
import Nngpp.Lib.BigEndian
import Nngpp.Lib.Run
import Nngpp.Lib.Scope
import Nngpp.Rep

/-!
The date service of `demo/reqrep/reqrep.cpp`.

A server and any number of clients are processes of their own. A client asks the
server once; strangers, which are other programs with REQ sockets, may ask it
anything at any time. nng may deliver a request again, and requests and replies may
get lost. All that happens is written down in a log, with the time at which it
happens, in terms of what the processes send, receive and print.
-/

namespace Nngpp.Reqrep

open Function Lib

/-- `time_t`, by its bits. -/
abbrev Time := BitVec 64

/-- `PUT64(ptr,u)`: the bytes that it writes. -/
def put64 (u : BitVec 64) : List UInt8 :=
  [.ofNat (u >>> 56).toNat, .ofNat (u >>> 48).toNat, .ofNat (u >>> 40).toNat,
    .ofNat (u >>> 32).toNat, .ofNat (u >>> 24).toNat, .ofNat (u >>> 16).toNat,
    .ofNat (u >>> 8).toNat, .ofNat u.toNat]

/-- `(uint64_t)((uint8_t)(ptr)[i])`. -/
def byte (ptr : List UInt8) (i : ℕ) : BitVec 64 := .ofNat 64 (ptr.getD i 0).toNat

/-- `GET64(ptr,v)`. -/
def get64 (ptr : List UInt8) : BitVec 64 :=
  byte ptr 0 <<< 56 + byte ptr 1 <<< 48 + byte ptr 2 <<< 40 + byte ptr 3 <<< 32 +
    byte ptr 4 <<< 24 + byte ptr 5 <<< 16 + byte ptr 6 <<< 8 + byte ptr 7

theorem put64_eq (u : BitVec 64) : put64 u = BigEndian.encode 8 u.toNat := by
  simp [put64, BigEndian.encode, Nat.shiftRight_eq_div_pow, Nat.div_div_eq_div_mul]

@[simp] theorem length_put64 (u : BitVec 64) : (put64 u).length = 8 := rfl

theorem get64_eq {ptr : List UInt8} (h : ptr.length = 8) :
    get64 ptr = .ofNat 64 (BigEndian.decode ptr) := by
  match ptr, h with
  | [b₀, b₁, b₂, b₃, b₄, b₅, b₆, b₇], _ =>
      apply BitVec.eq_of_toNat_eq
      simp [get64, byte, BigEndian.decode, Nat.shiftLeft_eq]
      omega

/-- What is put is what is read. -/
theorem get64_put64 (u : BitVec 64) : get64 (put64 u) = u := by
  rw [get64_eq (length_put64 u), put64_eq]
  exact BigEndian.ofNat_decode_encode (n := 8) u

/-- What is read is what is put. -/
theorem put64_get64 {ptr : List UInt8} (h : ptr.length = 8) : put64 (get64 ptr) = ptr := by
  have hlt : BigEndian.decode ptr < 2 ^ 64 := by
    calc BigEndian.decode ptr < 256 ^ ptr.length := BigEndian.decode_lt ptr
      _ = 2 ^ 64 := by rw [h]; rfl
  rw [put64_eq, get64_eq h, BitVec.toNat_ofNat, Nat.mod_eq_of_lt hlt, ← h]
  exact BigEndian.encode_decode ptr

/-- `PUT64(cmd,DATECMD)`. -/
abbrev request : List UInt8 := put64 1

/-- The test of the server. -/
theorem eq_request_iff {buf : List UInt8} : buf.length = 8 ∧ get64 buf = 1 ↔ buf = request := by
  constructor
  · intro h
    rw [← put64_get64 h.1, h.2]
  · intro h
    rw [h]
    exact ⟨length_put64 1, get64_put64 1⟩

/-! ### Processes -/

inductive Party
  | server
  | client (i : ℕ)
  deriving DecidableEq

/-- A REQ socket that asks. -/
inductive Peer
  | client (i : ℕ)
  | stranger (i : ℕ)
  deriving DecidableEq

/-- What happens: nng takes a request, the server receives it, reads the clock, and
nng takes its reply; a client prints a date, or that the size is wrong. -/
inductive Event
  | asked (c : Peer) (body : List UInt8)
  | received (c : Peer) (body : List UInt8)
  | dated (now : Time)
  | replied (c : Peer) (body : List UInt8)
  | printed (i : ℕ) (now : Time)
  | wrongSize (i : ℕ)
  deriving DecidableEq

/-- An event, and what the clock shows when it happens. -/
structure Entry where
  time : Time
  event : Event

/-- What a process has: whether its socket is open, the object `buf` with its data,
how many blocks are allocated, and what `main` has returned. -/
structure Process where
  sock : Bool
  buf : Option (List UInt8)
  allocated : ℕ
  returned : Option ℕ
  deriving DecidableEq

def Process.new : Process := ⟨false, none, 0, none⟩

/-- `auto buf = …`, with a block that nng has allocated. -/
def Process.hold (x : Process) (data : List UInt8) : Process :=
  { x with
    buf := some data
    allocated := x.allocated + 1 }

structure Net where
  clock : Time
  rep : Rep Peer
  procs : Party → Process
  log : List Entry
  /-- A socket has been closed, or a block freed, that there was not. -/
  fault : Bool
  /-- The clock has been set back. -/
  back : Bool

namespace Net

def set (s : Net) (t : Party) (x : Process) : Net := { s with procs := update s.procs t x }

def setRep (s : Net) (rep : Rep Peer) : Net := { s with rep := rep }

def note (s : Net) (e : Event) : Net := { s with log := s.log ++ [⟨s.clock, e⟩] }

/-- `nng_free`. -/
def nngFree (s : Net) (t : Party) : Net :=
  match (s.procs t).allocated with
  | 0 => { s with fault := true }
  | n + 1 => s.set t { s.procs t with allocated := n }

end Net

/-- What nng answers: a message with its peer, or a failure. -/
abbrev Delivery := Answer (Peer × List UInt8)

abbrev Action (α : Type) := Party → Delivery → Net → Option (α × Net)

abbrev Code (α : Type) := Lib.Code Party Delivery Net Exception α

/-! ### Statements -/

/-- A call which has no effect on the messages. -/
def call : Action Error := fun _ ans s => some (ans.code, s)

/-- `nng_rep0_open(&s)`, `nng_req0_open(&s)`. -/
def openSocket : Action Error := fun t ans s =>
  match ans with
  | .error e => some (e.val, s)
  | .ok _ => some (.success, s.set t { s.procs t with sock := true })

/-- `~socket()`. -/
def closeSocket : Action Unit := fun t _ s =>
  if (s.procs t).sock then some ((), s.set t { s.procs t with sock := false })
  else some ((), { s with fault := true })

/-- `~buffer()`. -/
def freeBuf : Action Unit := fun t _ s =>
  match (s.procs t).buf with
  | none => some ((), s)
  | some _ => some ((), (s.nngFree t).set t { (s.nngFree t).procs t with buf := none })

/-- `buf.release()`. -/
def releaseBuf : Action Unit := fun t _ s =>
  some ((), s.set t { s.procs t with buf := none })

/-- `nng_send(s,buf.data(),buf.size(),0)` of a client. -/
def reqSend (i : ℕ) (body : List UInt8) : Action Error := fun _ ans s =>
  match ans with
  | .error e => some (e.val, s)
  | .ok _ =>
      some (.success, (s.setRep (s.rep.ask [(.client i, body)])).note (.asked (.client i) body))

/-- `nng_recv(s,&data,&size,flag::alloc)` of a client: a reply to its request. -/
def reqRecv (i : ℕ) : Action (Answer (List UInt8)) := fun t ans s =>
  match ans with
  | .error e => some (.error e, s)
  | .ok q =>
      if (.client i, q.2) ∈ s.rep.replied then some (.ok q.2, s.set t ((s.procs t).hold q.2))
      else none

/-- `nng_recv(s,&data,&size,flag::alloc)` of the server. -/
def repRecv : Action (Answer (List UInt8)) := fun t ans s =>
  match ans with
  | .error e => some (.error e, s)
  | .ok q => (s.rep.deliver q).map fun rep =>
      (.ok q.2, ((s.setRep rep).set t ((s.procs t).hold q.2)).note (.received q.1 q.2))

/-- `nng_send(s,buf.data(),buf.size(),flag::alloc)` of the server, which frees the
block when it works. -/
def repSend (body : List UInt8) : Action Error := fun t ans s =>
  match ans, s.rep.current with
  | .error e, _ => some (e.val, s)
  | .ok _, none => some (.state, s)
  | .ok _, some c => some (.success,
      ((s.setRep (s.rep.reply body).2).nngFree t).note (.replied c body))

/-- `time(nullptr)`. -/
def time : Action Time := fun _ _ s => some (s.clock, s.note (.dated s.clock))

/-- A line of output. -/
def report (e : Event) : Action Unit := fun _ _ s => some ((), s.note e)

/-- `return` in `main`. -/
def exitWith (code : ℕ) : Prog Party Delivery Net Unit :=
  .act (fun t _ s => some ((), s.set t { s.procs t with returned := some code })) .pure

/-! ### The programs -/

/-- `void server(const char* url)`, up to its loop, in `main`. -/
def serverStart : Prog Party Delivery Net Unit :=
  Code.handle (do
      checked openSocket "nng_rep0_open"
      Code.unwinding closeSocket (checked call "nng_listen"))
    .pure fun _ => exitWith 1

/-- The body of its loop. -/
def serverRound : Prog Party Delivery Net Unit :=
  Code.handle (Code.unwinding closeSocket do
      let buf ← made repRecv "nng_recv"
      Code.within freeBuf do
        if buf.length = 8 ∧ get64 buf = 1 then
          let now ← Code.act time
          checked (repSend (put64 now ++ buf.drop 8)) "nng_send"
          Code.act releaseBuf)
    .pure fun _ => exitWith 1

/-- `void client(const char* url)`, in `main`. -/
def client (i : ℕ) : Prog Party Delivery Net Unit :=
  Code.handle (do
      checked openSocket "nng_req0_open"
      Code.within closeSocket do
        checked call "nng_dial"
        checked (reqSend i request) "nng_send"
        let buf ← made (reqRecv i) "nng_recv"
        Code.within freeBuf do
          if buf.length = 8 then
            Code.act (report (.printed i (get64 buf)))
          else
            Code.act (report (.wrongSize i)))
    (fun _ => exitWith 0) fun _ => exitWith 1

/-! ### Runs -/

abbrev World := Pool Party Delivery Net

/-- A statement of a process, the start of a client, a request of a stranger, a change
of the clock, and another round of the server's loop. -/
inductive Label
  | run (t : Party) (ans : Delivery)
  | start (i : ℕ)
  | ask (i : ℕ) (body : List UInt8)
  | tick (now : Time)
  | again

/-- nng takes the request of a stranger. -/
def Net.strange (s : Net) (i : ℕ) (body : List UInt8) : Net :=
  (s.setRep (s.rep.ask [(.stranger i, body)])).note (.asked (.stranger i) body)

/-- The clock goes on, or is set. -/
def Net.tick (s : Net) (now : Time) : Net :=
  { s with
    clock := now
    back := s.back || decide (now.toInt < s.clock.toInt) }

def exec (w : World) : Label → Option World
  | .run t ans => w.run t ans
  | .start i =>
      if (w.code (.client i)).isNone then some (w.spawn (.client i) (client i) w.shared) else none
  | .ask i body => some { w with shared := w.shared.strange i body }
  | .tick now => some { w with shared := w.shared.tick now }
  | .again =>
      match w.code .server with
      | some (.pure ()) =>
          if (w.shared.procs .server).returned.isNone then
            some (w.spawn .server serverRound w.shared)
          else none
      | _ => none

def Step (w : World) (l : Label) (w' : World) : Prop := exec w l = some w'

def Net.init (now : Time) : Net where
  clock := now
  rep := .init
  procs _ := .new
  log := []
  fault := false
  back := false

def World.init (now : Time) : World where
  shared := .init now
  code
    | .server => some serverStart
    | .client _ => none
  exited := false

end Nngpp.Reqrep
