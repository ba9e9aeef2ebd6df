import Nngpp.Reqrep.Service

/-!
Runs of the date service.

Every program keeps the contracts of its statements (`safe_client`,
`safe_serverStart`, `safe_serverRound`), so that the invariant of the service holds in
every run, however the processes are interleaved and whatever nng does.
-/

namespace Nngpp.Reqrep

open Function Lib

/-- A process between two of its programs: there is no block, the socket is open
exactly while the server runs, and as long as `main` has not returned the server is
ready and a client has printed nothing. -/
structure Done (v : View) : Prop where
  freed : v.proc.buf = none ∧ v.proc.allocated = 0
  sock : v.proc.sock = true ↔ v.party = .server ∧ v.proc.returned = none
  ready : v.proc.returned = none → v.phase = .idle ∧ v.printed = 0

/-- The socket of a process is open, and the process owns no block. -/
structure Connected (t : Party) (v : View) : Prop where
  party : v.party = t
  proc : v.proc = ⟨true, none, 0, none⟩

/-! ### The programs -/

section Programs

variable {i : ℕ} {t : Party} {v : View}

/-- `main` returns after the socket is closed. -/
theorem safe_exitWith (code : ℕ) (hproc : v.proc = .new) :
    logic.Safe t (exitWith code) (fun _ => Done) v := by
  apply spec_exitWith
  rw [hproc]
  refine ⟨⟨rfl, rfl⟩, ?_, ?_⟩
  · simp [Process.new]
  · simp

theorem spec_closeSocket_new {P : Unit → View → Prop} (h : Connected t v)
    (hP : P () { v with proc := .new }) : logic.Spec t closeSocket v P := by
  apply spec_closeSocket
  · rw [h.proc]
  · rw [h.proc]
    exact hP

theorem spec_openSocket_connected {P : Error → View → Prop} (hparty : v.party = t)
    (hproc : v.proc = .new) (herror : ∀ e : Failure, P e.val v)
    (hok : ∀ v', Connected t v' → v'.phase = v.phase → v'.printed = v.printed → P .success v') :
    logic.Spec t openSocket v P := by
  apply spec_openSocket herror
  apply hok
  · exact ⟨hparty, by rw [hproc]; rfl⟩
  · rfl
  · rfl

/-- What a client does while its socket is open. -/
theorem ok_asking (h : Connected (.client i) v) (hprinted : v.printed = 0) :
    logic.Ok (.client i) (do
        checked call "nng_dial"
        checked (reqSend i request) "nng_send"
        let buf ← made (reqRecv i) "nng_recv"
        Code.within freeBuf do
          if buf.length = 8 then
            Code.act (report (.printed i (get64 buf)))
          else
            Code.act (report (.wrongSize i)))
      (fun _ => Connected (.client i)) (fun _ => Connected (.client i)) v := by
  apply Logic.Ok.bind
  apply ok_checked
  apply spec_call
  intro e
  split
  · apply Logic.Ok.bind
    apply ok_checked
    apply spec_reqSend
    · intro e
      rw [if_neg e.property]
      exact h
    · rw [if_pos rfl]
      apply Logic.Ok.bind
      apply ok_made
      apply spec_reqRecv (fun _ => h)
      intro now
      -- what it receives is a date, so that the size is right
      apply Logic.Ok.within
      rw [if_pos (length_put64 now), get64_put64]
      apply Logic.Ok.act
      apply spec_report
      · exact hprinted
      · rfl
      · apply spec_freeBuf
        · rw [Process.Owns, h.proc]
          rfl
        · exact ⟨h.party, by rw [h.proc]; rfl⟩
  · exact h

theorem safe_client (hparty : v.party = .client i) (hproc : v.proc = .new)
    (hprinted : v.printed = 0) : logic.Safe (.client i) (client i) (fun _ => Done) v := by
  apply Logic.Ok.handle
  apply Logic.Ok.bind
  apply ok_checked
  apply spec_openSocket_connected hparty hproc
  · intro e
    rw [if_neg e.property]
    exact safe_exitWith 1 hproc
  · intro v' hconnected _ hprinted'
    rw [if_pos rfl]
    apply Logic.Ok.within
    apply Logic.Safe.mono (ok_asking hconnected (hprinted'.trans hprinted))
    intro r w hw
    cases r with
    | error e => exact spec_closeSocket_new hw (safe_exitWith 1 rfl)
    | ok a => exact spec_closeSocket_new hw (safe_exitWith 0 rfl)

/-- The server is ready for a request. -/
theorem Connected.done (h : Connected .server v) (hphase : v.phase = .idle)
    (hprinted : v.printed = 0) : Done v := by
  refine ⟨?_, ?_, fun _ => ⟨hphase, hprinted⟩⟩
  · rw [h.proc]
    exact ⟨rfl, rfl⟩
  · rw [h.proc, h.party]
    exact ⟨fun _ => ⟨rfl, rfl⟩, fun _ => rfl⟩

theorem safe_serverStart (hparty : v.party = .server) (hproc : v.proc = .new)
    (hphase : v.phase = .idle) (hprinted : v.printed = 0) :
    logic.Safe .server serverStart (fun _ => Done) v := by
  apply Logic.Ok.handle
  apply Logic.Ok.bind
  apply ok_checked
  apply spec_openSocket_connected hparty hproc
  · intro e
    rw [if_neg e.property]
    exact safe_exitWith 1 hproc
  · intro v' hconnected hphase' hprinted'
    rw [if_pos rfl]
    apply Logic.Ok.unwinding
    apply ok_checked
    apply spec_call
    intro e
    split
    · exact hconnected.done (hphase'.trans hphase) (hprinted'.trans hprinted)
    · exact spec_closeSocket_new hconnected (safe_exitWith 1 rfl)

/-- What the server does with a request. -/
theorem ok_serving {c : Peer} {buf : List UInt8}
    (h : Connected .server v) (hprinted : v.printed = 0) :
    logic.Ok .server (Code.within freeBuf do
        if buf.length = 8 ∧ get64 buf = 1 then
          let now ← Code.act time
          checked (repSend (put64 now ++ buf.drop 8)) "nng_send"
          Code.act releaseBuf)
      (fun _ v' => Connected .server v' ∧ v'.phase = .idle ∧ v'.printed = 0)
      (fun _ => Connected .server)
      { v with
        proc := v.proc.hold buf
        phase := if buf = request then .taken c else .idle } := by
  apply Logic.Ok.within
  by_cases hbuf : buf = request
  · rw [if_pos (eq_request_iff.mpr hbuf), if_pos hbuf, hbuf]
    apply Logic.Ok.bind
    apply Logic.Ok.act
    apply spec_time rfl
    intro now
    apply Logic.Ok.bind
    apply ok_checked
    -- the request is eight bytes long, so that the answer is the date alone
    have hdrop : put64 now ++ request.drop 8 = put64 now := rfl
    rw [hdrop]
    apply spec_repSend rfl
    · rw [h.proc]
      rfl
    · intro e
      rw [if_neg e.property]
      apply spec_freeBuf
      · rw [Process.Owns, h.proc]
        rfl
      · exact ⟨h.party, by rw [h.proc]; rfl⟩
    · rw [if_pos rfl]
      apply Logic.Ok.act
      apply spec_releaseBuf
      -- nng has freed the block, and the destructor finds nothing
      apply spec_freeBuf
      · rw [Process.Owns]
        rfl
      · exact ⟨⟨h.party, by rw [h.proc]; rfl⟩, rfl, hprinted⟩
  · rw [if_neg fun h => hbuf (eq_request_iff.mp h), if_neg hbuf]
    apply Logic.Ok.pure
    apply spec_freeBuf
    · rw [Process.Owns, h.proc]
      rfl
    · exact ⟨⟨h.party, by rw [h.proc]; rfl⟩, rfl, hprinted⟩

theorem safe_serverRound (h : Connected .server v) (hphase : v.phase = .idle)
    (hprinted : v.printed = 0) : logic.Safe .server serverRound (fun _ => Done) v := by
  apply Logic.Ok.handle
  apply Logic.Ok.unwinding
  apply Logic.Ok.bind
  apply ok_made
  apply spec_repRecv hphase
  · intro e
    exact spec_closeSocket_new h (safe_exitWith 1 rfl)
  · intro c buf
    apply Logic.Safe.mono (ok_serving h hprinted)
    intro r w hw
    cases r with
    | error e => exact spec_closeSocket_new hw (safe_exitWith 1 rfl)
    | ok a =>
        obtain ⟨hconnected, hidle, hnone⟩ := hw
        exact hconnected.done hidle hnone

end Programs

/-! ### Steps -/

abbrev Sound (w : World) : Prop := Pool.Sound logic Done w

theorem inv_init (now : Time) : Inv (.init now) where
  sound := rfl
  asked _ _ h := by cases h
  own _ _ h := by cases h
  replied _ _ h := by cases h
  printed _ _ h := by cases h
  once _ := by simp [Net.printings, Net.events, Net.init]
  sized _ h := by cases h
  dated _ h := by cases h
  timely _ := ⟨.nil, fun _ h => by cases h⟩

theorem sound_init (now : Time) : Sound (.init now) := by
  have hsees : ∀ t, Sees t (Net.init now) ⟨t, .new, .idle, 0, none⟩ := by
    intro t
    refine ⟨rfl, rfl, fun _ => ⟨rfl, trivial⟩, fun _ _ => rfl, fun i now' _ h => ?_⟩
    cases h
  refine ⟨inv_init now, fun t p ht => ?_, fun t ht => ⟨_, hsees t, ?_⟩⟩
  · cases t with
    | server =>
        obtain rfl : serverStart = p := Option.some.inj ht
        exact ⟨_, hsees .server, safe_serverStart rfl rfl rfl rfl⟩
    | client i => cases ht
  · cases t with
    | server => cases ht
    | client i => exact ⟨⟨rfl, rfl⟩, by simp [Process.new], fun _ => ⟨rfl, rfl⟩⟩

/-- A process that has not returned can begin. -/
theorem Done.proc {v : View} (h : Done v) (hreturned : v.proc.returned = none) :
    v.proc = ⟨decide (v.party = .server), none, 0, none⟩ := by
  obtain ⟨hbuf, hallocated⟩ := h.freed
  have hsock : v.proc.sock = decide (v.party = .server) := by
    rw [Bool.eq_iff_iff, h.sock, hreturned, decide_eq_true_eq]
    exact ⟨fun h => h.1, fun h => ⟨h, rfl⟩⟩
  rw [← hbuf, ← hallocated, ← hreturned, ← hsock]

/-- Clients that have not started have nothing. -/
structure Live (w : World) : Prop where
  sound : Sound w
  fresh : ∀ i, w.code (.client i) = none → w.shared.procs (.client i) = .new

section Steps

variable {w w' : World}

theorem Live.run (h : Live w) {t : Party} {ans : Delivery} (hrun : w.run t ans = some w') :
    Live w' := by
  refine ⟨h.sound.run hrun, fun i hi => ?_⟩
  obtain ⟨hne, hcode⟩ : .client i ≠ t ∧ w.code (.client i) = none := by
    obtain ⟨hcode, rfl⟩ | ⟨β, f, k, b, s, hcode, hf, rfl⟩ := Pool.run_eq_some.mp hrun
    · refine ⟨fun heq => ?_, hi⟩
      rw [← heq, show w.code (.client i) = none from hi] at hcode
      cases hcode
    · have hne : Party.client i ≠ t := by
        rintro rfl
        simp at hi
      exact ⟨hne, by simpa [Pool.spawn, update_of_ne hne] using hi⟩
  obtain ⟨v, hsees, -⟩ := h.sound.absent _ hcode
  have hsees' : Sees (.client i) w'.shared v := h.sound.run_frames hrun _ hne v hsees
  rw [hsees'.proc, ← hsees.proc]
  exact h.fresh i hcode

theorem Live.start (h : Live w) {i : ℕ} (hcode : w.code (.client i) = none) :
    Live (w.spawn (.client i) (client i) w.shared) := by
  obtain ⟨v, hsees, hdone⟩ := h.sound.absent _ hcode
  have hproc : v.proc = .new := hsees.proc.symm.trans (h.fresh i hcode)
  have hprinted : v.printed = 0 := (hdone.ready (by rw [hproc]; rfl)).2
  constructor
  · exact Pool.Sound.spawn h.sound h.sound.inv (fun _ _ _ hu => hu) hsees
      (safe_client hsees.party hproc hprinted)
  · intro j hj
    apply h.fresh j
    by_cases hji : j = i
    · rw [hji, hcode]
    · simpa [Pool.spawn, hji] using hj

theorem Live.again (h : Live w) (hcode : w.code .server = some (.pure ()))
    (hreturned : (w.shared.procs .server).returned = none) :
    Live (w.spawn .server serverRound w.shared) := by
  obtain ⟨v, hsees, hdone⟩ := h.sound.returned hcode
  have hparty : v.party = .server := hsees.party
  rw [hsees.proc] at hreturned
  have hproc : v.proc = ⟨true, none, 0, none⟩ := by
    rw [hdone.proc hreturned, hparty]
    rfl
  obtain ⟨hphase, hprinted⟩ := hdone.ready hreturned
  constructor
  · exact Pool.Sound.spawn h.sound h.sound.inv (fun _ _ _ hu => hu) hsees
      (safe_serverRound ⟨hparty, hproc⟩ hphase hprinted)
  · intro j hj
    exact h.fresh j (by simpa [Pool.spawn] using hj)

/-- What nobody does, nobody notices. -/
theorem Live.outside (h : Live w) {s : Net} (hinv : Inv s) (hframe : ∀ t, Frame t w.shared s) :
    Live { w with shared := s } := by
  constructor
  · apply Pool.Sound.outside h.sound hinv
    intro u v hv
    obtain ⟨t, ht⟩ : ∃ t, u ≠ t := by
      cases u with
      | server => exact ⟨.client 0, by decide⟩
      | client i => exact ⟨.server, by intro h; cases h⟩
    exact (hframe t).frames u ht v hv
  · intro i hi
    rw [(hframe .server).procs _ (by intro h; cases h)]
    exact h.fresh i hi

theorem Live.step (h : Live w) {l : Label} (hstep : Step w l w') : Live w' := by
  have hinv : Inv w.shared := h.sound.inv
  unfold Step exec at hstep
  cases l with
  | run t ans => exact h.run hstep
  | start i =>
      obtain ⟨hcode, hstep⟩ := Option.ite_none_right_eq_some.mp hstep
      obtain rfl := Option.some.inj hstep
      exact h.start (Option.isNone_iff_eq_none.mp hcode)
  | ask i body =>
      obtain rfl := Option.some.inj hstep
      apply h.outside
      · apply hinv.ask
        intro j heq
        cases heq
      · intro t
        apply (frame_setRep (w.shared.rep.ask [(.stranger i, body)]) fun _ => rfl).trans
        exact frame_note (fun _ _ => next_asked) fun _ _ => rfl
  | tick now =>
      obtain rfl := Option.some.inj hstep
      exact h.outside (hinv.tick now)
        fun t => ⟨fun _ _ => rfl, fun _ hes => hes, fun _ => ⟨rfl, rfl⟩, fun _ _ => rfl⟩
  | again =>
      simp only at hstep
      split at hstep
      · rename_i hcode
        obtain ⟨hreturned, hstep⟩ := Option.ite_none_right_eq_some.mp hstep
        obtain rfl := Option.some.inj hstep
        exact h.again hcode (Option.isNone_iff_eq_none.mp hreturned)
      · cases hstep

end Steps

section Runs

variable {now₀ : Time} {tr : List (Transition World Label)} {w : World}

theorem live_run (run : Run Step (.init now₀) tr w) : Live w := by
  apply run.invariant
  · exact ⟨sound_init now₀, fun _ _ => rfl⟩
  · exact fun _ _ _ h hstep => h.step hstep

/-- A client prints once. -/
theorem eq_of_printed {s : Net} {i : ℕ} (h : s.printings i ≤ 1) {x y : Entry} (hx : x ∈ s.log)
    (hy : y ∈ s.log) (hxi : x.event.isPrint i = true) (hyi : y.event.isPrint i = true) : x = y := by
  have hlength : (s.log.filter fun z => z.event.isPrint i).length ≤ 1 := by
    rwa [Net.printings, Net.events, List.countP_map, List.countP_eq_length_filter] at h
  have hx' : x ∈ s.log.filter fun z => z.event.isPrint i := List.mem_filter.mpr ⟨hx, hxi⟩
  have hy' : y ∈ s.log.filter fun z => z.event.isPrint i := List.mem_filter.mpr ⟨hy, hyi⟩
  have hone := Nat.le_antisymm hlength (List.length_pos_of_mem hx')
  obtain ⟨z, hz⟩ := List.length_eq_one_iff.mp hone
  rw [hz, List.mem_singleton] at hx' hy'
  rw [hx', hy']

/-- Some statements of a process, with the same message for all of them. -/
def statements (t : Party) (n : ℕ) (body : List UInt8) : List Label :=
  List.replicate n (.run t (.ok (.client 0, body)))

/-- A client gets the date. -/
def asked : List Label :=
  statements .server 2 request ++ [.again, .start 0] ++ statements (.client 0) 3 request ++
    [.tick 7] ++ statements .server 5 request ++ [.tick 8] ++ statements (.client 0) 5 (put64 7)

/-- Whatever nng does and however the processes are interleaved, a client prints at
most one date, and this is a date which the server has read from its clock for this
client: the client asked, the server received the request, read the clock and replied,
in this order, before the client printed it. -/
theorem dates_printed (run : Run Step (.init now₀) tr w) (i : ℕ) :
    w.shared.printings i ≤ 1 ∧ .wrongSize i ∉ w.shared.events ∧
    ∀ now, .printed i now ∈ w.shared.events →
      [.asked (.client i) request, .received (.client i) request, .dated now,
        .replied (.client i) (put64 now), .printed i now].Sublist w.shared.events := by
  have hinv : Inv w.shared := (live_run run).sound.inv
  exact ⟨hinv.once i, hinv.sized i, hinv.printed i⟩

theorem dates_printed_asked :
    ∃ w, Run.follow exec (.init 0) asked = some w ∧
      [.asked (.client 0) request, .received (.client 0) request, .dated 7,
        .replied (.client 0) (put64 7), .printed 0 7].Sublist w.shared.events := by
  obtain ⟨w, hw, hprinted⟩ : ∃ w, Run.follow exec (.init 0) asked = some w ∧
      .printed 0 7 ∈ w.shared.events := ⟨_, rfl, by decide⟩
  obtain ⟨tr, run⟩ := Run.of_follow hw
  exact ⟨w, hw, (dates_printed run 0).2.2 7 hprinted⟩

/-- Unless the clock is set back, a date that a client prints is not before the time at
which the client asked, and not after the time at which it is printed. -/
theorem dates_between (run : Run Step (.init now₀) tr w) (hback : w.shared.back = false) {i : ℕ}
    {x : Entry} (hx : x ∈ w.shared.log) {now : Time} (hprinted : x.event = .printed i now) :
    ∃ y ∈ w.shared.log, y.event = .asked (.client i) request ∧
      y.time.toInt ≤ now.toInt ∧ now.toInt ≤ x.time.toInt := by
  have hinv : Inv w.shared := (live_run run).sound.inv
  have htimely : Timely w.shared := hinv.timely hback
  have hstory := hinv.printed i now (hprinted ▸ List.mem_map_of_mem hx)
  have hbefore : Happened w.shared [.asked (.client i) request, .dated now] :=
    .trans (by simp) hstory
  have hafter : Happened w.shared [.dated now, .printed i now] := .trans (by simp) hstory
  obtain ⟨y, hy, d, hd, hasked, hdated, hle⟩ := htimely.before hbefore
  obtain ⟨d', hd', z, hz, hdated', hprinted', hle'⟩ := htimely.before hafter
  rw [← hinv.dated d hd now hdated] at hle
  rw [← hinv.dated d' hd' now hdated'] at hle'
  have hzx : z = x := by
    apply eq_of_printed (hinv.once i) hz hx
    · rw [hprinted']
      exact beq_self_eq_true i
    · rw [hprinted]
      exact beq_self_eq_true i
  exact ⟨y, hy, hasked, hle, hzx ▸ hle'⟩

theorem dates_between_asked :
    ∃ w, Run.follow exec (.init 0) asked = some w ∧
      ∃ y ∈ w.shared.log, y.event = .asked (.client 0) request ∧
        y.time.toInt ≤ (7 : Time).toInt ∧ (7 : Time).toInt ≤ (8 : Time).toInt := by
  obtain ⟨w, hw, hback, hlog⟩ : ∃ w, Run.follow exec (.init 0) asked = some w ∧
      w.shared.back = false ∧ w.shared.log = [⟨0, .asked (.client 0) request⟩,
        ⟨7, .received (.client 0) request⟩, ⟨7, .dated 7⟩, ⟨7, .replied (.client 0) (put64 7)⟩,
        ⟨8, .printed 0 7⟩] := ⟨_, rfl, rfl, rfl⟩
  obtain ⟨tr, run⟩ := Run.of_follow hw
  exact ⟨w, hw, dates_between run hback (x := ⟨8, .printed 0 7⟩) (by simp [hlog]) rfl⟩

/-- The server is a date service in every run: it answers each well-formed request that
it receives before it receives another, with the date at this time, and no other
request ever. -/
theorem requests_served (run : Run Step (.init now₀) tr w) :
    (∃ p, w.shared.served = some p) ∧
    ∀ c body, (c, body) ∈ w.shared.rep.replied → ∃ now, body = put64 now ∧
      [.asked c request, .received c request, .dated now, .replied c body].Sublist
        w.shared.events := by
  have hlive := live_run run
  have hinv : Inv w.shared := hlive.sound.inv
  constructor
  · cases hcode : w.code .server with
    | none =>
        obtain ⟨v, hsees, -⟩ := hlive.sound.absent _ hcode
        exact ⟨v.phase, (hsees.phase rfl).1⟩
    | some p =>
        obtain ⟨v, hsees, -⟩ := hlive.sound.threads _ p hcode
        exact ⟨v.phase, (hsees.phase rfl).1⟩
  · intro c body hmem
    obtain ⟨now, rfl, hanswered⟩ := hinv.replied c body hmem
    exact ⟨now, rfl, hanswered⟩

/-- A stranger asks for something else, and then for the date. -/
def strange : List Label :=
  statements .server 2 [] ++ [.again, .ask 3 [42], .ask 3 request,
    .run .server (.ok (.stranger 3, [42])), .run .server (.ok (.stranger 3, [42])), .again,
    .run .server (.ok (.stranger 3, request))] ++ statements .server 4 []

theorem requests_served_strange :
    ∃ w, Run.follow exec (.init 7) strange = some w ∧
      w.shared.rep.replied = [(.stranger 3, put64 7)] ∧ (∃ p, w.shared.served = some p) := by
  obtain ⟨w, hw, hreplied⟩ : ∃ w, Run.follow exec (.init 7) strange = some w ∧
      w.shared.rep.replied = [(.stranger 3, put64 7)] := ⟨_, rfl, rfl⟩
  obtain ⟨tr, run⟩ := Run.of_follow hw
  exact ⟨w, hw, hreplied, (requests_served run).1⟩

/-- No process frees a block or closes a socket twice. A program that is over has left
no block behind, and its socket is closed but for a server that goes on. -/
theorem processes_clean (run : Run Step (.init now₀) tr w) :
    w.shared.fault = false ∧
    ∀ t, w.code t = some (.pure ()) → (w.shared.procs t).allocated = 0 ∧
      ((w.shared.procs t).sock = true ↔ t = .server ∧ (w.shared.procs t).returned = none) := by
  have hlive := live_run run
  have hinv : Inv w.shared := hlive.sound.inv
  refine ⟨hinv.sound, fun t ht => ?_⟩
  obtain ⟨v, hsees, hdone⟩ := hlive.sound.returned ht
  have hproc : w.shared.procs t = v.proc := hsees.proc
  have hparty : v.party = t := hsees.party
  rw [hproc, ← hparty]
  exact ⟨hdone.freed.2, hdone.sock⟩

theorem processes_clean_asked :
    ∃ w, Run.follow exec (.init 0) asked = some w ∧
      w.shared.procs (.client 0) = ⟨false, none, 0, some 0⟩ ∧
      (w.shared.procs .server).allocated = 0 := by
  obtain ⟨w, hw, hproc, hserver⟩ : ∃ w, Run.follow exec (.init 0) asked = some w ∧
      w.shared.procs (.client 0) = ⟨false, none, 0, some 0⟩ ∧
      w.code .server = some (.pure ()) := ⟨_, rfl, rfl, rfl⟩
  obtain ⟨tr, run⟩ := Run.of_follow hw
  exact ⟨w, hw, hproc, ((processes_clean run).2 .server hserver).1⟩

end Runs

end Nngpp.Reqrep
