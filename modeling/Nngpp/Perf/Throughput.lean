import Nngpp.Perf.Link

/-!
The throughput test, whatever nng does.

The client sends an empty message and then as many messages as it was told, and
waits for the empty message that the server sends when it has all of its own. The
two are started with their own arguments, and these need not agree.
-/

namespace Nngpp.Perf

open Function Lib

/-- The messages of a client that has sent `i` of them after the first. -/
def burst (msgsize i : ℕ) : List Message := [] :: List.replicate i (List.replicate msgsize 0)

theorem burst_append (msgsize i : ℕ) :
    burst msgsize i ++ [List.replicate msgsize 0] = burst msgsize (i + 1) := by
  simp [burst, List.replicate_succ']

/-- What the server has when it has counted its messages. -/
structure Counted (msgsize : ℕ) (count : ℤ) (received : List Message) : Prop where
  number : received.length = count.toNat + 1
  sizes : ∀ m ∈ received.tail, m.length = msgsize

/-- The protocol of the test: `msgsize` and `count` are the arguments of the sides. -/
structure Measures (msgsize : Side → ℕ) (count : Side → ℤ) (h : History) : Prop where
  client : h.sent .client = [] ∨ ∃ i, h.sent .client = burst (msgsize .client) i
  server : h.sent .server = [] ∨
    h.sent .server = [[]] ∧ Counted (msgsize .server) (count .server) (h.received .server)
  /-- The server stops only when it was told another size. -/
  server_died : h.died .server = true → msgsize .client ≠ msgsize .server
  client_died : h.died .client = false

section

variable {msgsize : Side → ℕ} {count : Side → ℤ} {h : History} {strict : Prop}

/-- What the client has sent after its first message has its size. -/
theorem Measures.size_of_mem (hh : Measures msgsize count h) {m : Message}
    (hm : m ∈ (h.sent .client).tail) : m.length = msgsize .client := by
  obtain hsent | ⟨i, hsent⟩ := hh.client
  · simp [hsent] at hm
  · simp only [hsent, burst, List.tail_cons] at hm
    simp [List.eq_of_mem_replicate hm]

/-- A message that the server receives after the first has the size of the client. -/
theorem Measures.size_received (hh : Measures msgsize count h) (hdelivered : Delivered h)
    {m : Message} (hm : m ∈ (h.received .server).tail) : m.length = msgsize .client :=
  hh.size_of_mem ((hdelivered .server).tail.subset hm)

/-- The client goes on while the server has not counted all of its messages. -/
theorem Measures.receive_server (hh : Measures msgsize count h) (hsent : h.sent .server = [])
    (m : Message) : Measures msgsize count (h.receive .server m) where
  client := hh.client
  server := .inl hsent
  server_died := hh.server_died
  client_died := hh.client_died

theorem Measures.receive_client (hh : Measures msgsize count h) (m : Message) :
    Measures msgsize count (h.receive .client m) where
  client := hh.client
  server := by simpa using hh.server
  server_died := hh.server_died
  client_died := hh.client_died

theorem Measures.send_client (hh : Measures msgsize count h) {m : Message} {i : ℕ}
    (hsent : h.sent .client ++ [m] = burst (msgsize .client) i) :
    Measures msgsize count (h.send .client m) where
  client := .inr ⟨i, by simpa using hsent⟩
  server := by simpa using hh.server
  server_died := hh.server_died
  client_died := hh.client_died

theorem Measures.send_server (hh : Measures msgsize count h) (hsent : h.sent .server = [])
    (hcounted : Counted (msgsize .server) (count .server) (h.received .server)) :
    Measures msgsize count (h.send .server []) where
  client := by simpa using hh.client
  server := .inr ⟨by simp [hsent], hcounted⟩
  server_died := hh.server_died
  client_died := hh.client_died

theorem Measures.die_server (hh : Measures msgsize count h)
    (hne : msgsize .client ≠ msgsize .server) : Measures msgsize count (h.die .server) where
  client := hh.client
  server := hh.server
  server_died _ := hne
  client_died := by simpa using hh.client_died

/-- A side that has returned has done its part. -/
def Measured (msgsize : Side → ℕ) (count : Side → ℤ) (v : View) : Prop :=
  match v.side with
  | .client => v.sent = burst (msgsize .client) (count .client).toNat ∧ v.received = [[]]
  | .server => v.sent = [[]] ∧ Counted (msgsize .server) (count .server) v.received

/-- The client sends its messages, and gets the one of the server. -/
theorem safe_throughputClient :
    (logic strict (Measures msgsize count)).Safe .client
      (throughputClient (msgsize .client) (count .client))
      (fun _ => Measured msgsize count) ⟨.client, [], []⟩ := by
  apply Logic.Ok.orExit
  apply Logic.Ok.bind
  apply ok_call
  apply Logic.Ok.bind
  apply ok_call
  apply Logic.Ok.bind
  apply ok_call
  apply Logic.Ok.bind
  apply ok_call
  apply Logic.Ok.bind
  apply Logic.Ok.bind
  apply ok_makeMsg
  apply ok_send
  · intro h hh _ hv
    have hsent : h.sent .client = [] := congrArg View.sent hv
    exact hh.send_client (i := 0) (by rw [hsent]; rfl)
  apply Logic.Ok.bind
  apply Logic.Safe.mono
  · apply Logic.Ok.iterate (I := fun i _ v => v = ⟨.client, burst (msgsize .client) i, []⟩)
    · intro i _ v _ hv
      -- after `i` rounds it has sent the empty message and `i` others
      subst hv
      apply Logic.Ok.bind
      apply ok_makeMsg
      apply ok_send
      · intro h hh _ hv
        have hsent : h.sent .client = burst (msgsize .client) i := congrArg View.sent hv
        exact hh.send_client (by rw [hsent, burst_append])
      · rw [burst_append]
    · rfl
  · intro r v hv
    cases r with
    | error e => trivial
    | ok _ =>
        obtain rfl : v = _ := hv
        apply Logic.Ok.bind
        apply ok_recvMsg
        · exact fun h m hh _ _ => hh.receive_client m
        · intro h m hh hdelivered hv
          apply Logic.Ok.pure
          have hreceived : h.received .client = [m] := congrArg View.received hv
          have hmem : m ∈ h.sent .server := (hdelivered .client).subset (by simp [hreceived])
          -- the server has sent nothing, or the empty message when it had counted
          obtain hsent | ⟨hsent, -⟩ := hh.server
          · simp [hsent] at hmem
          · simp only [hsent, List.mem_singleton] at hmem
            exact ⟨rfl, by rw [hmem]; rfl⟩

/-- The server counts its messages, and tells the client. -/
theorem safe_throughputServer :
    (logic strict (Measures msgsize count)).Safe .server
      (throughputServer (msgsize .server) (count .server))
      (fun _ => Measured msgsize count) ⟨.server, [], []⟩ := by
  apply Logic.Ok.orExit
  apply Logic.Ok.bind
  apply ok_call
  apply Logic.Ok.bind
  apply ok_call
  apply Logic.Ok.bind
  apply ok_call
  apply Logic.Ok.bind
  apply ok_recvMsg
  · exact fun h m hh _ hv => hh.receive_server (congrArg View.sent hv) m
  intro _ m₀ _ _ _
  apply Logic.Ok.bind
  apply Logic.Safe.mono
  · apply Logic.Ok.iterate (I := fun i _ v => ∃ l : List Message,
      v = ⟨.server, [], m₀ :: l⟩ ∧ l.length = i ∧ ∀ m ∈ l, m.length = msgsize .server)
    · rintro i _ v _ ⟨l, rfl, hlength, hsizes⟩
      apply Logic.Ok.bind
      apply ok_recvChecked
      · exact fun h m hh _ hv => hh.receive_server (congrArg View.sent hv) m
      · intro h m hh hdelivered hv hm
        have hreceived : h.received .server = m₀ :: l ++ [m] := congrArg View.received hv
        have hsize : m.length = msgsize .client :=
          hh.size_received hdelivered (by simp [hreceived])
        exact hh.die_server (by rwa [← hsize])
      · intro _ m _ _ _ hm
        apply Logic.Ok.pure
        refine ⟨l ++ [m], rfl, by simp [hlength], ?_⟩
        simp only [List.mem_append, List.mem_singleton]
        rintro m' (hm' | rfl)
        · exact hsizes m' hm'
        · exact hm
    · exact ⟨[], rfl, rfl, nofun⟩
  · intro r v hv
    cases r with
    | error e => trivial
    | ok _ =>
        obtain ⟨l, rfl, hlength, hsizes⟩ := hv
        have hcounted : Counted (msgsize .server) (count .server) (m₀ :: l) :=
          ⟨by simp [hlength], hsizes⟩
        apply ok_send
        · intro h hh _ hv
          have hreceived : h.received .server = m₀ :: l := congrArg View.received hv
          exact hh.send_server (congrArg View.sent hv) (hreceived ▸ hcounted)
        · exact ⟨rfl, hcounted⟩

end

/-! ### Runs -/

variable {room : Side → ℕ+} {msgsize : Side → ℕ} {count : Side → ℤ}
  {tr : List (Transition World Label)} {w : World}

theorem sound_throughput {strict : Prop} (run : Run Step (.throughput room msgsize count) tr w)
    (hkeeps : strict → ∀ e ∈ tr, e.label.Keeps) :
    Pool.Sound (logic strict (Measures msgsize count)) (Measured msgsize count) w := by
  refine sound_run (sound_on ?_ safe_throughputClient safe_throughputServer) run hkeeps
  exact ⟨.inl rfl, .inl rfl, nofun, rfl⟩

/-- In every run of the two sides, whatever fails and whatever gets lost: the server
never stops because of a size unless the two were told different ones. A server
that returns has received its number of messages of its size, and a client that
returns knows that the server has. If nothing gets lost, the messages that the
server has are the first ones that the client sent. -/
theorem throughput_run (run : Run Step (.throughput room msgsize count) tr w) :
    (w.shared.past.died .server = true → msgsize .client ≠ msgsize .server) ∧
    w.shared.past.died .client = false ∧
    (w.code .server = some (.pure ()) →
      Counted (msgsize .server) (count .server) (w.shared.past.received .server)) ∧
    (w.code .client = some (.pure ()) →
      w.shared.past.sent .client = burst (msgsize .client) (count .client).toNat ∧
      Counted (msgsize .server) (count .server) (w.shared.past.received .server)) ∧
    ((∀ e ∈ tr, e.label.Keeps) →
      w.shared.past.received .server <+: w.shared.past.sent .client) := by
  have hw : Pool.Sound (logic False (Measures msgsize count)) (Measured msgsize count) w :=
    sound_throughput run False.elim
  have hinv : Ordered False w.shared ∧ Measures msgsize count w.shared.past := hw.inv
  obtain ⟨hordered, hmeasures⟩ := hinv
  refine ⟨hmeasures.server_died, hmeasures.client_died, fun hcode => ?_, fun hcode => ?_,
    fun hkeeps => ?_⟩
  · obtain ⟨v, hsees, hdone⟩ := hw.returned hcode
    obtain rfl : w.shared.past.view .server = v := hsees
    exact hdone.2
  · obtain ⟨v, hsees, hdone⟩ := hw.returned hcode
    obtain rfl : w.shared.past.view .client = v := hsees
    obtain ⟨hsent, hreceived⟩ : w.shared.past.sent .client = _ ∧ w.shared.past.received .client = _ :=
      hdone
    refine ⟨hsent, ?_⟩
    -- what the client has received was sent by a server that had counted
    have hmem : [] ∈ w.shared.past.sent .server :=
      (hordered.delivered .client).subset (by simp [hreceived])
    obtain hnone | ⟨-, hcounted⟩ := hmeasures.server
    · simp [hnone] at hmem
    · exact hcounted
  · have hw : Pool.Sound (logic True (Measures msgsize count)) (Measured msgsize count) w :=
      sound_throughput run fun _ => hkeeps
    have hinv : Ordered True w.shared ∧ Measures msgsize count w.shared.past := hw.inv
    exact ⟨_, hinv.1.complete trivial .server⟩

/-- The client sends two messages, the server counts them, and the client is told. -/
theorem throughput_run_counted :
    ∃ w, Run.follow exec (.throughput (fun _ => 2) (fun _ => 3) (fun _ => 1))
        (statements .client 8 ++ statements .server 6 ++ statements .client 1) = some w ∧
      w.shared.past.died .server = false ∧ Counted 3 1 (w.shared.past.received .server) ∧
      w.shared.past.received .server <+: burst 3 1 := by
  obtain ⟨w, hw, hdied, hcode⟩ : ∃ w,
      Run.follow exec (.throughput (fun _ => 2) (fun _ => 3) (fun _ => 1))
        (statements .client 8 ++ statements .server 6 ++ statements .client 1) = some w ∧
      w.shared.past.died .server = false ∧ w.code .client = some (.pure ()) :=
    ⟨_, rfl, rfl, rfl⟩
  obtain ⟨tr, run, hlabels⟩ := Run.of_follow_labels hw
  have hkeeps : ∀ e ∈ tr, e.label.Keeps := by
    intro e he
    have hmem : e.label ∈ tr.map Transition.label := List.mem_map_of_mem he
    rw [hlabels] at hmem
    have hall : ∀ l ∈ statements .client 8 ++ statements .server 6 ++ statements .client 1,
        l.Keeps := by
      simp [statements, Label.Keeps]
    exact hall _ hmem
  obtain ⟨-, -, -, hclient, hprefix⟩ := throughput_run run
  obtain ⟨hsent, hcounted⟩ := hclient hcode
  have hfirst := hprefix hkeeps
  rw [hsent] at hfirst
  exact ⟨w, hw, hdied, hcounted, hfirst⟩

end Nngpp.Perf
