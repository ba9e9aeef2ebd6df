import Nngpp.Perf.Link

/-!
The latency test, whatever nng does.

The client sends a message, waits for it to come back, and sends it again; the
server sends back what it receives. So there is one message, or none when it was
lost or a side is using it. The two sides are started with their own arguments,
and these need not agree.
-/

namespace Nngpp.Perf

open Function Lib

/-- The message of the client. -/
abbrev ball (msgsize : Side → ℕ) : Message := List.replicate (msgsize .client) 0

/-- The protocol of the test: `msgsize` are the arguments of the sides. -/
structure Bounces (msgsize : Side → ℕ) (h : History) : Prop where
  ball : ∀ t, ∀ m ∈ h.sent t, m = ball msgsize
  /-- The client waits before it sends again, and the server before it sends. -/
  client : (h.sent .client).length ≤ (h.received .client).length + 1
  server : (h.sent .server).length ≤ (h.received .server).length
  /-- The server stops only when it was told another size. -/
  server_died : h.died .server = true → msgsize .client ≠ msgsize .server
  client_died : h.died .client = false

section

variable {msgsize : Side → ℕ} {trips : Side → ℤ} {h : History} {strict : Prop}

theorem Bounces.ball_received (hh : Bounces msgsize h) (hdelivered : Delivered h) {t : Side}
    {m : Message} (hm : m ∈ h.received t) : m = Perf.ball msgsize :=
  hh.ball t.peer m ((hdelivered t).subset hm)

theorem Bounces.receive (hh : Bounces msgsize h) (t : Side) (m : Message) :
    Bounces msgsize (h.receive t m) where
  ball := hh.ball
  client := by
    have hclient := hh.client
    cases t with
    | client =>
        simp only [History.sent_receive, History.received_receive, update_self,
          List.length_append, List.length_singleton]
        omega
    | server => simpa using hclient
  server := by
    have hserver := hh.server
    cases t with
    | client => simpa using hserver
    | server =>
        simp only [History.sent_receive, History.received_receive, update_self,
          List.length_append, List.length_singleton]
        omega
  server_died := hh.server_died
  client_died := hh.client_died

/-- Sending the ball is all that `Bounces` allows, and only in turn. -/
theorem Bounces.send (hh : Bounces msgsize h) {t : Side}
    (hclient : t = .client → (h.sent .client).length ≤ (h.received .client).length)
    (hserver : t = .server → (h.sent .server).length < (h.received .server).length) :
    Bounces msgsize (h.send t (Perf.ball msgsize)) where
  ball u m hm := by
    by_cases hu : u = t
    · subst hu
      simp only [History.sent_send, update_self, List.mem_append, List.mem_singleton] at hm
      obtain hm | hm := hm
      · exact hh.ball u m hm
      · exact hm
    · simp only [History.sent_send, update_of_ne hu] at hm
      exact hh.ball u m hm
  client := by
    cases t with
    | client => simpa using hclient rfl
    | server => simpa using hh.client
  server := by
    cases t with
    | client => simpa using hh.server
    | server => simpa [Nat.succ_le_iff] using hserver rfl
  server_died := hh.server_died
  client_died := hh.client_died

theorem Bounces.die_server (hh : Bounces msgsize h) (hne : msgsize .client ≠ msgsize .server) :
    Bounces msgsize (h.die .server) where
  ball := hh.ball
  client := hh.client
  server := hh.server
  server_died _ := hne
  client_died := by simpa using hh.client_died

/-- A side after `i` trips. -/
def Bounced (i : ℕ) (v : View) : Prop := v.sent.length = i ∧ v.received.length = i

/-- A side that has returned has made its trips. -/
def Tripped (trips : Side → ℤ) (v : View) : Prop := Bounced (trips v.side).toNat v

theorem safe_latencyClient :
    (logic strict (Bounces msgsize)).Safe .client
      (latencyClient (msgsize .client) (trips .client)) (fun _ => Tripped trips)
      ⟨.client, [], []⟩ := by
  apply Logic.Ok.orExit
  apply Logic.Ok.bind
  apply ok_call
  apply Logic.Ok.bind
  apply ok_call
  apply Logic.Ok.bind
  apply ok_makeMsg
  apply Logic.Ok.bind
  apply Logic.Safe.mono
  · apply Logic.Ok.iterate
      (I := fun i m v => m = ball msgsize ∧ v.side = .client ∧ Bounced i v)
    · intro i m v _ hv
      obtain ⟨rfl, hside, hsent, hreceived⟩ := hv
      apply Logic.Ok.bind
      apply ok_send
      · intro h hh _ hv
        refine hh.send (fun _ => ?_) nofun
        have hsent' : h.sent .client = v.sent := congrArg View.sent hv
        have hreceived' : h.received .client = v.received := congrArg View.received hv
        rw [hsent', hreceived']
        omega
      · apply ok_recvMsg
        · exact fun h m hh _ _ => hh.receive _ m
        · intro h m hh hdelivered hv
          have hreceived' : h.received .client = v.received ++ [m] := congrArg View.received hv
          refine ⟨hh.ball_received hdelivered (t := .client) (by simp [hreceived']), hside, ?_⟩
          exact ⟨by simpa using hsent, by simpa using hreceived⟩
    · exact ⟨rfl, rfl, rfl, rfl⟩
  · intro r v hv
    cases r with
    | error e => trivial
    | ok m =>
        obtain ⟨-, hside, hbounced⟩ := hv
        apply Logic.Ok.pure
        rwa [Tripped, hside]

theorem safe_latencyServer :
    (logic strict (Bounces msgsize)).Safe .server
      (latencyServer (msgsize .server) (trips .server)) (fun _ => Tripped trips)
      ⟨.server, [], []⟩ := by
  apply Logic.Ok.orExit
  apply Logic.Ok.bind
  apply ok_call
  apply Logic.Ok.bind
  apply ok_call
  apply Logic.Safe.mono
  · apply Logic.Ok.iterate (I := fun i _ v => v.side = .server ∧ Bounced i v)
    · intro i _ v _ hv
      obtain ⟨hside, hsent, hreceived⟩ := hv
      apply Logic.Ok.bind
      apply ok_recvChecked
      · exact fun h m hh _ _ => hh.receive _ m
      · intro h m hh hdelivered hv hm
        have hreceived' : h.received .server = v.received ++ [m] := congrArg View.received hv
        have hball := hh.ball_received hdelivered (t := .server) (m := m) (by simp [hreceived'])
        exact hh.die_server (by simpa [hball] using hm)
      · intro h m hh hdelivered hv _
        have hreceived' : h.received .server = v.received ++ [m] := congrArg View.received hv
        obtain rfl : m = ball msgsize :=
          hh.ball_received hdelivered (t := .server) (by simp [hreceived'])
        apply ok_send
        · intro h' hh' _ hv'
          have hsent₁ : h'.sent .server = v.sent := congrArg View.sent hv'
          have hreceived₁ : h'.received .server = v.received ++ [ball msgsize] :=
            congrArg View.received hv'
          refine hh'.send nofun fun _ => ?_
          rw [hsent₁, hreceived₁, List.length_append, List.length_singleton]
          omega
        · exact ⟨hside, by simpa using hsent, by simpa using hreceived⟩
    · exact ⟨rfl, rfl, rfl⟩
  · intro r v hv
    cases r with
    | error e => trivial
    | ok _ =>
        obtain ⟨hside, hbounced⟩ := hv
        simpa only [Tripped, hside] using hbounced

/-- The ball is on its way to one side at most. -/
theorem in_flight {s : Link} (hordered : Ordered strict s) (hh : Bounces msgsize s.past) :
    (s.queue .client).length + (s.queue .server).length ≤ 1 := by
  have hclient := (hordered.sublist .client).length_le
  have hserver := (hordered.sublist .server).length_le
  have hfirst := hh.client
  have hsecond := hh.server
  simp only [Side.peer, List.length_append] at hclient hserver
  omega

end

/-! ### Runs -/

variable {room : Side → ℕ+} {msgsize : Side → ℕ} {trips : Side → ℤ}
  {tr : List (Transition World Label)} {w : World}

/-- In every run of the two sides, whatever fails and whatever gets lost: at most
one message is on its way, and it is the one that the client made. The server
never stops because of a size unless the two were told different ones. A side that
returns has sent and received the message once for each of its trips, and when it
is the client, the server has sent it back as often. -/
theorem latency_run (run : Run Step (.latency room msgsize trips) tr w) :
    (w.shared.queue .client).length + (w.shared.queue .server).length ≤ 1 ∧
    (∀ t, ∀ m ∈ w.shared.queue t, m = ball msgsize) ∧
    (w.shared.past.died .server = true → msgsize .client ≠ msgsize .server) ∧
    w.shared.past.died .client = false ∧
    (∀ t, w.code t = some (.pure ()) →
      w.shared.past.sent t = List.replicate (trips t).toNat (ball msgsize) ∧
      w.shared.past.received t = List.replicate (trips t).toNat (ball msgsize)) ∧
    (w.code .client = some (.pure ()) →
      (trips .client).toNat ≤ (w.shared.past.sent .server).length) := by
  have hw : Pool.Sound (logic False (Bounces msgsize)) (Tripped trips) w := by
    refine sound_run (sound_on ?_ safe_latencyClient safe_latencyServer) run False.elim
    exact ⟨fun _ _ => nofun, by simp, by simp, nofun, rfl⟩
  have hinv : Ordered False w.shared ∧ Bounces msgsize w.shared.past := hw.inv
  obtain ⟨hordered, hbounces⟩ := hinv
  have htripped : ∀ t, w.code t = some (.pure ()) →
      Bounced (trips t).toNat (w.shared.past.view t) := by
    intro t hcode
    obtain ⟨v, hsees, hdone⟩ := hw.returned hcode
    obtain rfl : w.shared.past.view t = v := hsees
    exact hdone
  refine ⟨in_flight hordered hbounces, fun t m hm => ?_, hbounces.server_died,
    hbounces.client_died, fun t hcode => ?_, fun hcode => ?_⟩
  · exact hbounces.ball t.peer m ((hordered.sublist t).subset (by simp [hm]))
  · obtain ⟨hsent, hreceived⟩ := htripped t hcode
    constructor
    · exact List.eq_replicate_iff.mpr ⟨hsent, hbounces.ball t⟩
    · refine List.eq_replicate_iff.mpr ⟨hreceived, fun m hm => ?_⟩
      exact hbounces.ball_received hordered.delivered hm
  · obtain ⟨-, hreceived⟩ := htripped .client hcode
    have hlength := (hordered.delivered .client).length_le
    calc (trips .client).toNat = (w.shared.past.received .client).length := hreceived.symm
      _ ≤ (w.shared.past.sent .server).length := hlength

/-- The message goes to the server and back, twice. -/
theorem latency_run_twice :
    ∃ w, Run.follow exec (.latency (fun _ => 1) (fun _ => 3) (fun _ => 2))
        (statements .client 4 ++ statements .server 4 ++ statements .client 2 ++
          statements .server 2 ++ statements .client 1) = some w ∧
      w.shared.past.received .client = [[0, 0, 0], [0, 0, 0]] ∧
      2 ≤ (w.shared.past.sent .server).length := by
  obtain ⟨w, hw, hcode⟩ : ∃ w,
      Run.follow exec (.latency (fun _ => 1) (fun _ => 3) (fun _ => 2))
        (statements .client 4 ++ statements .server 4 ++ statements .client 2 ++
          statements .server 2 ++ statements .client 1) = some w ∧
      w.code .client = some (.pure ()) :=
    ⟨_, rfl, rfl⟩
  obtain ⟨tr, run⟩ := Run.of_follow hw
  obtain ⟨-, -, -, -, hreturned, hclient⟩ := latency_run run
  exact ⟨w, hw, (hreturned .client hcode).2, hclient hcode⟩

end Nngpp.Perf
