import Nngpp.Perf.Schedules

/-!
Whether the tests come to an end, when nothing fails and nothing gets lost.

The sides take turns, message by message, until one of them has no more rounds.
What the other one still has to do decides: the client of the throughput test can
get rid of as many messages as there is room for, and everything else waits for
ever.
-/

namespace Nngpp.Perf

open Function Lib

/-- All schedules end in the same state, where nobody can go on, after the same
number of statements; and both sides have returned there just when `p`. -/
def Ends (w₀ : World) (p : Prop) : Prop := ∃ z n, Stuck turn z ∧
  (∀ ks w, Run.follow turn w₀ ks = some w →
    ∃ ms, Run.follow turn w ms = some z ∧ ks.length + ms.length = n) ∧
  ((∀ t, z.code t = some (.pure ())) ↔ p)

theorem Ends.intro {w₀ z : World} {p : Prop} (hw₀ : w₀.All Statement) (hz : Leads w₀ z)
    (hstuck : Stuck turn z) (hp : (∀ t, z.code t = some (.pure ())) ↔ p) : Ends w₀ p := by
  obtain ⟨n, hn⟩ := all_schedules hw₀ hz hstuck
  exact ⟨z, n, hstuck, hn, hp⟩

/-- A side that waits has not returned. -/
theorem not_returned {z : World} {t : Side} {β : Type} {f : Action β}
    {k : β → Prog Side Reply Link Unit} (hcode : z.code t = some (.act f k)) :
    ¬∀ t, z.code t = some (.pure ()) := by
  intro h
  have ht := h t
  rw [hcode] at ht
  cases ht

/-- Nobody has anything on its way. -/
structure Quiet (s : Link) : Prop where
  client : s.queue .client = []
  server : s.queue .server = []

theorem quiet_init (room : Side → ℕ+) : Quiet (.init room) := ⟨rfl, rfl⟩

/-! ### The throughput test -/

section Throughput

variable {size : ℕ} {s : Link}

/-- The client, with `k` messages to go. -/
def throughputSending (size k : ℕ) : Prog Side Reply Link Unit :=
  Code.orExit do
    Code.iterate k (fun _ => sendNew size) ()
    let _ ← recvMsg
    return

/-- The server, with `k` messages to go. -/
def throughputCounting (size k : ℕ) : Prog Side Reply Link Unit :=
  Code.orExit do
    Code.iterate k (fun _ => do let _ ← recvChecked size) ()
    sendView []

theorem alone_throughputSending (size k : ℕ) (hroom : (s.queue .server).length < s.room .server) :
    Prog.Alone .client (.ok ()) s (throughputSending size (k + 1))
      (s.push .client (List.replicate size 0)) (throughputSending size k) := by
  rw [throughputSending, Code.iterate, bind_assoc]
  exact yields_sendNew hroom _

theorem alone_throughputCounting (k : ℕ) {m : Message} {ms : List Message}
    (hq : s.queue .server = m :: ms) (hm : m.length = size) :
    Prog.Alone .server (.ok ()) s (throughputCounting size (k + 1)) (s.pop .server m ms)
      (throughputCounting size k) := by
  rw [throughputCounting, Code.iterate, bind_assoc, bind_assoc]
  exact yields_recvChecked hq hm _

/-- Some messages are sent and received, one by one. -/
theorem throughput_rounds (size : ℕ) (hs : Quiet s) (j k n : ℕ) : ∃ s', Quiet s' ∧ s'.room = s.room ∧
    Leads (World.on s (throughputSending size (k + j)) (throughputCounting size (n + j)))
      (World.on s' (throughputSending size k) (throughputCounting size n)) := by
  induction j generalizing s with
  | zero => exact ⟨s, hs, rfl, Leads.refl _⟩
  | succ j ih =>
      have hsend := alone_throughputSending (s := s) size (k + j) (by simp [hs.server])
      have hqueue : (s.push .client (List.replicate size 0)).queue .server =
          [List.replicate size 0] := by
        simp [Side.peer, hs.server]
      have hrecv := alone_throughputCounting (n + j) hqueue List.length_replicate
      obtain ⟨s', hs', hroom, hleads⟩ :=
        ih (s := (s.push .client (List.replicate size 0)).pop .server (List.replicate size 0) [])
          ⟨by simp [Side.peer, hs.client], by simp⟩
      exact ⟨s', hs', hroom, (leads_client hsend).trans ((leads_server hrecv).trans hleads)⟩

/-- The client sends messages that stay where they are. -/
theorem throughput_fill {q : Prog Side Reply Link Unit} (size j k : ℕ)
    (hroom : (s.queue .server).length + j ≤ s.room .server) : ∃ s',
    (s'.queue .server).length = (s.queue .server).length + j ∧
    s'.queue .client = s.queue .client ∧ s'.room = s.room ∧
    Leads (World.on s (throughputSending size (k + j)) q)
      (World.on s' (throughputSending size k) q) := by
  induction j generalizing s with
  | zero => exact ⟨s, rfl, rfl, rfl, Leads.refl _⟩
  | succ j ih =>
      have hsend := alone_throughputSending (s := s) size (k + j) (by omega)
      have hlength : ((s.push .client (List.replicate size 0)).queue .server).length =
          (s.queue .server).length + 1 := by
        simp [Side.peer]
      obtain ⟨s', hserver, hclient, hroom', hleads⟩ :=
        ih (s := s.push .client (List.replicate size 0)) (by rw [hlength, Link.room_push]; omega)
      refine ⟨s', by omega, ?_, hroom', (leads_client hsend).trans hleads⟩
      rw [hclient]
      simp [Side.peer]

/-- Both sides get ready, and the first message is received. -/
theorem throughput_start (room : Side → ℕ+) (size : ℕ) (count : Side → ℤ) : ∃ s, Quiet s ∧
    s.room = room ∧ Leads (.throughput room (fun _ => size) count)
      (World.on s (throughputSending size (count .client).toNat)
        (throughputCounting size (count .server).toNat)) := by
  have hclient : Prog.Alone .client (.ok ()) (.init room) (throughputClient size (count .client))
      ((Link.init room).push .client []) (throughputSending size (count .client).toNat) := by
    rw [throughputClient]
    refine Prog.Alone.trans (yields_call _) ?_
    refine Prog.Alone.trans (yields_call _) ?_
    refine Prog.Alone.trans (yields_call _) ?_
    refine Prog.Alone.trans (yields_call _) ?_
    exact yields_sendNew (by simp [Link.init]) _
  have hserver : Prog.Alone .server (.ok ()) ((Link.init room).push .client [])
      (throughputServer size (count .server)) (((Link.init room).push .client []).pop .server [] [])
      (throughputCounting size (count .server).toNat) := by
    rw [throughputServer]
    refine Prog.Alone.trans (yields_call _) ?_
    refine Prog.Alone.trans (yields_call _) ?_
    refine Prog.Alone.trans (yields_call _) ?_
    exact yields_recvMsg (by simp [Side.peer, Link.init]) _
  refine ⟨_, ⟨?_, ?_⟩, ?_, (leads_client hclient).trans (leads_server hserver)⟩
  · simp [Side.peer, Link.init]
  · simp
  · rfl

/-- The client waits for a message when it has sent all of its own. -/
theorem throughput_waits {q : Prog Side Reply Link Unit} (hs : s.queue .client = []) :
    turn (World.on s (throughputSending size 0) q) .client = none :=
  turn_of_waiting (f := nngRecvmsg) rfl (nngRecvmsg_none hs)

/-- The server waits while it has messages to count. -/
theorem throughput_counts {k : ℕ} {p : Prog Side Reply Link Unit} (hs : s.queue .server = []) :
    turn (World.on s p (throughputCounting size (k + 1))) .server = none :=
  turn_of_waiting (f := nngRecvmsg) rfl (nngRecvmsg_none hs)

/-- The server tells the client, and returns. -/
theorem alone_summed (size : ℕ) (hroom : (s.queue .client).length < s.room .client) :
    Prog.Alone .server (.ok ()) s (throughputCounting size 0) (s.push .server []) (.pure ()) :=
  ((Code.Yields.pure ()).bind (yields_send hroom)).orExit

/-- The client is told, and returns. -/
theorem alone_told (size : ℕ) {m : Message} {ms : List Message} (hq : s.queue .client = m :: ms) :
    Prog.Alone .client (.ok ()) s (throughputSending size 0) (s.pop .client m ms) (.pure ()) :=
  ((Code.Yields.pure ()).bind ((yields_recvMsg hq).bind (.pure ()))).orExit

/-- The client makes its next message, and waits for room. -/
theorem throughput_stops (size k : ℕ) {q : Prog Side Reply Link Unit}
    (hfull : (s.queue .server).length = s.room .server) : ∃ z, z.shared = s ∧
    Leads (World.on s (throughputSending size (k + 1)) q) z ∧ turn z .client = none ∧
    z.code .server = some q ∧ ¬∀ t, z.code t = some (.pure ()) := by
  have hmake : Prog.Alone .client (.ok ()) s (throughputSending size (k + 1)) s
      (Code.orExit do
        sendMsg (List.replicate size 0)
        Code.iterate k (fun _ => sendNew size) ()
        let _ ← recvMsg
        return) := by
    rw [throughputSending, Code.iterate, bind_assoc, sendNew, bind_assoc]
    exact yields_makeMsg _
  refine ⟨_, rfl, leads_client hmake, ?_, rfl, ?_⟩
  · exact turn_of_waiting (f := nngSend (List.replicate size 0)) rfl (nngSend_none hfull)
  · exact not_returned (t := .client) (f := nngSend (List.replicate size 0)) rfl

end Throughput

/-! ### The latency test -/

section Latency

variable {size k : ℕ} {s : Link} {m : Message}

/-- The client, with `k` trips to go. -/
def latencyPlaying (k : ℕ) (msg : Message) : Prog Side Reply Link Unit :=
  Code.orExit do
    let _ ← Code.iterate k (fun msg => do
      sendMsg msg
      recvMsg) msg
    return

/-- The client has just sent its message, with `k` trips to go after this one. -/
def latencyWaiting (k : ℕ) : Prog Side Reply Link Unit :=
  Code.orExit do
    let msg ← recvMsg
    let _ ← Code.iterate k (fun msg => do
      sendMsg msg
      recvMsg) msg
    return

/-- The server, with `k` trips to go. -/
def latencyServing (size k : ℕ) : Prog Side Reply Link Unit :=
  Code.orExit do
    Code.iterate k (fun _ => do
      let m ← recvChecked size
      sendMsg m) ()

theorem alone_latencyPlaying (hroom : (s.queue .server).length < s.room .server) :
    Prog.Alone .client (.ok ()) s (latencyPlaying (k + 1) m) (s.push .client m)
      (latencyWaiting k) := by
  rw [latencyPlaying, Code.iterate, bind_assoc, bind_assoc]
  exact yields_send hroom _

theorem alone_latencyWaiting {ms : List Message} (hq : s.queue .client = m :: ms) :
    Prog.Alone .client (.ok ()) s (latencyWaiting k) (s.pop .client m ms) (latencyPlaying k m) :=
  yields_recvMsg hq _

theorem alone_latencyServing {ms : List Message} (hq : s.queue .server = m :: ms)
    (hm : m.length = size) (hroom : (s.queue .client).length < s.room .client) :
    Prog.Alone .server (.ok ()) s (latencyServing size (k + 1))
      ((s.pop .server m ms).push .server m) (latencyServing size k) := by
  have hsend : Code.Yields .server (.ok ()) (s.pop .server m ms) (sendMsg m) ()
      ((s.pop .server m ms).push .server m) :=
    yields_send (by simpa [Side.peer] using hroom)
  exact ((yields_recvChecked hq hm).bind hsend) _

/-- The message goes to the server and back. -/
theorem latency_rounds (hs : Quiet s) (hm : m.length = size) (j k n : ℕ) : ∃ s', Quiet s' ∧
    s'.room = s.room ∧
    Leads (World.on s (latencyPlaying (k + j) m) (latencyServing size (n + j)))
      (World.on s' (latencyPlaying k m) (latencyServing size n)) := by
  induction j generalizing s with
  | zero => exact ⟨s, hs, rfl, Leads.refl _⟩
  | succ j ih =>
      have hsend := alone_latencyPlaying (s := s) (m := m) (k := k + j) (by simp [hs.server])
      have hqueue : (s.push .client m).queue .server = [m] := by
        simp [Side.peer, hs.server]
      have hserve := alone_latencyServing (k := n + j) hqueue hm (by simp [Side.peer, hs.client])
      have hqueue' : (((s.push .client m).pop .server m []).push .server m).queue .client = [m] := by
        simp [Side.peer, hs.client]
      have hrecv := alone_latencyWaiting (k := k + j) hqueue'
      obtain ⟨s', hs', hroom, hleads⟩ := ih
        (s := (((s.push .client m).pop .server m []).push .server m).pop .client m [])
        ⟨by simp, by simp [Side.peer]⟩
      refine ⟨s', hs', hroom, (leads_client hsend).trans ?_⟩
      exact (leads_server hserve).trans ((leads_client hrecv).trans hleads)

theorem latency_start (room : Side → ℕ+) (size : ℕ) (trips : Side → ℤ) :
    Leads (.latency room (fun _ => size) trips)
      (World.on (.init room) (latencyPlaying (trips .client).toNat (List.replicate size 0))
        (latencyServing size (trips .server).toNat)) := by
  have hclient : Prog.Alone .client (.ok ()) (.init room) (latencyClient size (trips .client))
      (.init room) (latencyPlaying (trips .client).toNat (List.replicate size 0)) := by
    rw [latencyClient]
    refine Prog.Alone.trans (yields_call _) ?_
    refine Prog.Alone.trans (yields_call _) ?_
    exact yields_makeMsg _
  have hserver : Prog.Alone .server (.ok ()) (.init room) (latencyServer size (trips .server))
      (.init room) (latencyServing size (trips .server).toNat) := by
    rw [latencyServer]
    refine Prog.Alone.trans (yields_call _) ?_
    exact yields_call _
  exact (leads_client hclient).trans (leads_server hserver)

/-- When nothing fails and nothing gets lost, the test comes to an end for every
schedule, or for none: it does when both sides were told the same number of trips,
or none that is positive. -/
theorem latency_ends (room : Side → ℕ+) (size : ℕ) (trips : Side → ℤ) :
    Ends (.latency room (fun _ => size) trips)
      ((trips .client).toNat = (trips .server).toNat) := by
  have hstart := latency_start room size trips
  have hall := all_latency room (fun _ => size) trips
  generalize (trips .client).toNat = c at *
  generalize (trips .server).toNat = n at *
  have hsize : (List.replicate size (0 : UInt8)).length = size := List.length_replicate
  obtain hcn | hcn | hcn := Nat.lt_trichotomy c n
  · -- the server waits for another trip
    obtain ⟨k, rfl⟩ : ∃ k, n = k + 1 + c := ⟨n - c - 1, by omega⟩
    obtain ⟨s', hs', -, hrounds⟩ := latency_rounds (quiet_init room) hsize c 0 (k + 1)
    rw [Nat.zero_add] at hrounds
    refine .intro hall (hstart.trans hrounds) (fun t => ?_) (iff_of_false ?_ (by omega))
    · cases t with
      | client => exact turn_of_returned rfl
      | server => exact turn_of_waiting (f := nngRecvmsg) rfl (nngRecvmsg_none hs'.server)
    · exact not_returned (t := .server) (f := nngRecvmsg) rfl
  · subst hcn
    obtain ⟨s', hs', -, hrounds⟩ := latency_rounds (quiet_init room) hsize c 0 0
    rw [Nat.zero_add] at hrounds
    refine .intro hall (hstart.trans hrounds) (fun t => ?_) (iff_of_true (fun t => ?_) rfl)
    · cases t with
      | client => exact turn_of_returned rfl
      | server => exact turn_of_returned rfl
    · cases t with
      | client => rfl
      | server => rfl
  · -- the client sends once more, and nobody answers
    obtain ⟨k, rfl⟩ : ∃ k, c = k + 1 + n := ⟨c - n - 1, by omega⟩
    obtain ⟨s', hs', -, hrounds⟩ := latency_rounds (quiet_init room) hsize n (k + 1) 0
    rw [Nat.zero_add] at hrounds
    have hsend := alone_latencyPlaying (s := s') (m := List.replicate size 0) (k := k)
      (by simp [hs'.server])
    refine .intro hall ((hstart.trans hrounds).trans (leads_client hsend)) (fun t => ?_)
      (iff_of_false ?_ (by omega))
    · cases t with
      | client =>
          have hempty : (s'.push .client (List.replicate size 0)).queue .client = [] := by
            simpa [Side.peer] using hs'.client
          exact turn_of_waiting (f := nngRecvmsg) rfl (nngRecvmsg_none hempty)
      | server => exact turn_of_returned rfl
    · exact not_returned (t := .client) (f := nngRecvmsg) rfl

end Latency

end Nngpp.Perf
