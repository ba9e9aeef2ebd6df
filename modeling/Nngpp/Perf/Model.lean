import Mathlib.Data.PNat.Defs
import Nngpp.Calls
import Nngpp.Lib.Loop
import Nngpp.Lib.Run

/-!
The performance tests of `perf/throughput.h` and `perf/latency.h`.

A client and a server talk over a pair socket each. The messages for a side are
kept in order, as many as there is room for: a send waits while there is no room,
and a receive while there is no message. Either may fail at any time, and nng may
lose messages on the way.

A side may run in a process of its own or in a thread of the other's process, so
it is not assumed that the end of one side ends the other. The clocks, the sleeps
and what is printed have no effect on the messages and are left out.
-/

namespace Nngpp.Perf

open Function Lib

inductive Side
  | client | server
  deriving DecidableEq

def Side.peer : Side → Side
  | .client => .server
  | .server => .client

@[simp] theorem Side.peer_peer (t : Side) : t.peer.peer = t := by cases t <;> rfl

theorem Side.peer_ne (t : Side) : t.peer ≠ t := by cases t <;> decide

/-- There are two sides. -/
theorem Side.eq_peer {t u : Side} (h : t ≠ u) : u = t.peer := by
  cases t <;> cases u <;> first | rfl | exact absurd rfl h

/-- An `nng_msg`, by its body. -/
abbrev Message := List UInt8

/-- What the sides have done so far: the messages that they have sent and
received, in order, and whether they have called `die`. -/
structure History where
  sent : Side → List Message
  received : Side → List Message
  died : Side → Bool

/-- The messages that are on their way to a side, and the room for them. -/
structure Link where
  room : Side → ℕ+
  queue : Side → List Message
  past : History

namespace History

def send (h : History) (t : Side) (m : Message) : History :=
  { h with sent := update h.sent t (h.sent t ++ [m]) }

def receive (h : History) (t : Side) (m : Message) : History :=
  { h with received := update h.received t (h.received t ++ [m]) }

def die (h : History) (t : Side) : History := { h with died := update h.died t true }

variable {h : History} {t u : Side} {m : Message}

@[simp] theorem sent_send : (h.send t m).sent = update h.sent t (h.sent t ++ [m]) := rfl

@[simp] theorem received_send : (h.send t m).received = h.received := rfl

@[simp] theorem died_send : (h.send t m).died = h.died := rfl

@[simp] theorem sent_receive : (h.receive t m).sent = h.sent := rfl

@[simp] theorem received_receive :
    (h.receive t m).received = update h.received t (h.received t ++ [m]) := rfl

@[simp] theorem died_receive : (h.receive t m).died = h.died := rfl

@[simp] theorem sent_die : (h.die t).sent = h.sent := rfl

@[simp] theorem received_die : (h.die t).received = h.received := rfl

@[simp] theorem died_die : (h.die t).died = update h.died t true := rfl

end History

/-! ### Statements -/

/-- What nng answers: that it works, or the failure. -/
abbrev Reply := Answer Unit

abbrev Action (α : Type) := Side → Reply → Link → Option (α × Link)

abbrev Code (α : Type) := Lib.Code Side Reply Link Exception α

/-- A call which has no effect on the messages. -/
def call : Action Error := fun _ ans s => some (ans.code, s)

/-- `nng_sendmsg(s,m,0)`, `nng_send(s,data,size,0)`. -/
def nngSend (m : Message) : Action Error := fun t ans s =>
  match ans with
  | .error e => some (e.val, s)
  | .ok _ =>
      if (s.queue t.peer).length < s.room t.peer then
        some (.success, { s with
          queue := update s.queue t.peer (s.queue t.peer ++ [m])
          past := s.past.send t m })
      else none

/-- `nng_recvmsg(s,&m,0)`. -/
def nngRecvmsg : Action (Answer Message) := fun t ans s =>
  match ans with
  | .error e => some (.error e, s)
  | .ok _ =>
      match s.queue t with
      | [] => none
      | m :: ms => some (.ok m, { s with
          queue := update s.queue t ms
          past := s.past.receive t m })

/-- The message of `die`. -/
def report : Action Unit := fun t _ s => some ((), { s with past := s.past.die t })

/-- `static void die(const char* fmt, ...)`. -/
def die : Code Unit := do
  Code.act report
  ExceptT.lift .halt

/-- `nng::make_msg(size)`, `nng::msg msg(size)`. -/
def makeMsg (size : ℕ) : Code Message := do
  checked call "nng_msg_alloc"
  return List.replicate size 0

/-- `s.send( std::move(msg) )`. -/
def sendMsg (m : Message) : Code Unit := checked (nngSend m) "nng_sendmsg"

/-- `s.send( nng::view(data,size) )`. -/
def sendView (m : Message) : Code Unit := checked (nngSend m) "nng_send"

/-- `s.recv_msg()`. -/
def recvMsg : Code Message := made nngRecvmsg "nng_recvmsg"

/-! ### The tests -/

/-- `s.send( nng::make_msg(size) );`. -/
def sendNew (size : ℕ) : Code Unit := do
  let m ← makeMsg size
  sendMsg m

/-- `auto msg = s.recv_msg();`, and the test of its size. -/
def recvChecked (msgsize : ℕ) : Code Message := do
  let m ← recvMsg
  if m.length ≠ msgsize then die
  return m

/-- `void throughput_server(const char* addr, size_t msgsize, int count)`. -/
def throughputServer (msgsize : ℕ) (count : ℤ) : Prog Side Reply Link Unit :=
  Code.orExit do
    checked call "nng_pair1_open"
    checked call "nng_socket_set_int"
    checked call "nng_listen"
    let _ ← recvMsg
    Code.iterate count.toNat (fun _ => do let _ ← recvChecked msgsize) ()
    sendView []

/-- `void throughput_client(const char* addr, size_t msgsize, int count)`. -/
def throughputClient (msgsize : ℕ) (count : ℤ) : Prog Side Reply Link Unit :=
  Code.orExit do
    checked call "nng_pair1_open"
    checked call "nng_socket_set_int"
    checked call "nng_socket_set_ms"
    checked call "nng_dial"
    sendNew 0
    Code.iterate count.toNat (fun _ => sendNew msgsize) ()
    let _ ← recvMsg

/-- `void latency_server(const char* addr, size_t msgsize, int trips)`. -/
def latencyServer (msgsize : ℕ) (trips : ℤ) : Prog Side Reply Link Unit :=
  Code.orExit do
    checked call "nng_pair1_open"
    checked call "nng_listen"
    Code.iterate trips.toNat (fun _ => do
      let m ← recvChecked msgsize
      sendMsg m) ()

/-- `void latency_client(const char* addr, size_t msgsize, int trips)`. -/
def latencyClient (msgsize : ℕ) (trips : ℤ) : Prog Side Reply Link Unit :=
  Code.orExit do
    checked call "nng_pair1_open"
    checked call "nng_dial"
    let msg ← makeMsg msgsize
    let _ ← Code.iterate trips.toNat (fun msg => do
      sendMsg msg
      recvMsg) msg

/-! ### Runs -/

abbrev World := Pool Side Reply Link

/-- A statement of a side, with nng's answer; a message for a side that gets lost. -/
inductive Label
  | run (t : Side) (ans : Reply)
  | lose (t : Side) (i : ℕ)

def exec (w : World) : Label → Option World
  | .run t ans => w.run t ans
  | .lose t i =>
      if i < (w.shared.queue t).length then
        some { w with shared := { w.shared with
          queue := update w.shared.queue t ((w.shared.queue t).eraseIdx i) } }
      else none

def Step (w : World) (l : Label) (w' : World) : Prop := exec w l = some w'

def Link.init (room : Side → ℕ+) : Link where
  room := room
  queue _ := []
  past := ⟨fun _ => [], fun _ => [], fun _ => false⟩

/-- Two programs on a link. -/
def World.on (s : Link) (client server : Prog Side Reply Link Unit) : World where
  shared := s
  code
    | .client => some client
    | .server => some server
  exited := false

/-- Some statements of a side, which work. -/
def statements (t : Side) (n : ℕ) : List Label := List.replicate n (.run t (.ok ()))

/-- The sides of the throughput test, each with its own arguments. -/
def World.throughput (room : Side → ℕ+) (msgsize : Side → ℕ) (count : Side → ℤ) : World :=
  .on (.init room) (throughputClient (msgsize .client) (count .client))
    (throughputServer (msgsize .server) (count .server))

/-- The sides of the latency test, each with its own arguments. -/
def World.latency (room : Side → ℕ+) (msgsize : Side → ℕ) (trips : Side → ℤ) : World :=
  .on (.init room) (latencyClient (msgsize .client) (trips .client))
    (latencyServer (msgsize .server) (trips .server))

end Nngpp.Perf
