import Nngpp.Perf.Model

/-!
The schedules of two programs on a link.

When nothing fails and nothing gets lost, a side waits only for room and for
messages, and what it does next does not depend on when the other one moves. So
all schedules come to the same (`commutes`), and it is enough to let the sides
take turns (`Leads`).
-/

namespace Nngpp.Perf

open Function Lib

/-- A statement of a side that works. -/
abbrev turn (w : World) (t : Side) : Option World := w.run t (.ok ())

/-! ### All schedules come to the same -/

/-- The statements of the two programs. -/
inductive Statement : ∀ {β : Type}, Action β → Prop
  | call : Statement call
  | send (m : Message) : Statement (nngSend m)
  | recv : Statement nngRecvmsg
  | report : Statement report

namespace Link

/-- A side sends a message. -/
def push (s : Link) (t : Side) (m : Message) : Link :=
  { s with queue := update s.queue t.peer (s.queue t.peer ++ [m]), past := s.past.send t m }

/-- A side receives a message, and these are left. -/
def pop (s : Link) (t : Side) (m : Message) (ms : List Message) : Link :=
  { s with queue := update s.queue t ms, past := s.past.receive t m }

def die (s : Link) (t : Side) : Link := { s with past := s.past.die t }

variable {s : Link} {t u : Side} {m m' : Message} {ms ms' : List Message}

@[simp] theorem room_push : (s.push t m).room = s.room := rfl

@[simp] theorem room_pop : (s.pop t m ms).room = s.room := rfl

@[simp] theorem queue_push :
    (s.push t m).queue = update s.queue t.peer (s.queue t.peer ++ [m]) := rfl

@[simp] theorem queue_pop : (s.pop t m ms).queue = update s.queue t ms := rfl

@[simp] theorem queue_die : (s.die t).queue = s.queue := rfl

@[simp] theorem room_die : (s.die t).room = s.room := rfl

end Link

theorem nngSend_ok {s : Link} {t : Side} {m : Message} {r : Error × Link} :
    nngSend m t (.ok ()) s = some r ↔
      (s.queue t.peer).length < s.room t.peer ∧ r = (.success, s.push t m) := by
  simp only [nngSend, Option.ite_none_right_eq_some, Option.some.injEq]
  exact and_congr_right fun _ => eq_comm

theorem nngRecvmsg_ok {s : Link} {t : Side} {r : Answer Message × Link} :
    nngRecvmsg t (.ok ()) s = some r ↔
      ∃ m ms, s.queue t = m :: ms ∧ r = (.ok m, s.pop t m ms) := by
  constructor
  · intro h
    cases hq : s.queue t with
    | nil => simp [nngRecvmsg, hq] at h
    | cons m ms =>
        simp only [nngRecvmsg, hq, Option.some.injEq] at h
        exact ⟨m, ms, rfl, h.symm⟩
  · rintro ⟨m, ms, hq, rfl⟩
    simp only [nngRecvmsg, hq]
    rfl

theorem nngRecvmsg_none {s : Link} {t : Side} (hq : s.queue t = []) :
    nngRecvmsg t (.ok ()) s = none := by
  simp [nngRecvmsg, hq]

theorem nngSend_none {s : Link} {t : Side} {m : Message}
    (hfull : (s.queue t.peer).length = s.room t.peer) : nngSend m t (.ok ()) s = none := by
  simp [nngSend, hfull]

section Independence

variable {β γ : Type} {f : Action β} {g : Action γ}

theorem independent_symm (h : Independent (.ok ()) f g) : Independent (.ok ()) g f := by
  intro t u s b s₁ c s₂ htu hg hf
  obtain ⟨s₃, hf₃, hg₃⟩ := h (Ne.symm htu) hf hg
  exact ⟨s₃, hg₃, hf₃⟩

theorem independent_call : Independent (.ok ()) call g := by
  intro t u s b s₁ c s₂ _ hf hg
  obtain ⟨rfl, rfl⟩ := Prod.mk.inj (Option.some.inj hf)
  exact ⟨s₂, hg, rfl⟩

/-- What a side reports is seen by nobody. -/
theorem independent_report (hg : Statement g) : Independent (.ok ()) report g := by
  intro t u s b s₁ c s₂ htu hf hg'
  obtain ⟨rfl, rfl⟩ := Prod.mk.inj (Option.some.inj hf)
  cases hg with
  | call =>
      obtain ⟨rfl, rfl⟩ := Prod.mk.inj (Option.some.inj hg')
      exact ⟨_, rfl, rfl⟩
  | send m =>
      obtain ⟨hroom, hr⟩ := nngSend_ok.mp hg'
      obtain ⟨rfl, rfl⟩ := Prod.mk.inj hr
      exact ⟨_, nngSend_ok.mpr ⟨hroom, rfl⟩, rfl⟩
  | recv =>
      obtain ⟨m, ms, hq, hr⟩ := nngRecvmsg_ok.mp hg'
      obtain ⟨rfl, rfl⟩ := Prod.mk.inj hr
      exact ⟨_, nngRecvmsg_ok.mpr ⟨m, ms, hq, rfl⟩, rfl⟩
  | report =>
      obtain ⟨rfl, rfl⟩ := Prod.mk.inj (Option.some.inj hg')
      refine ⟨(s.die t).die u, rfl, ?_⟩
      simp only [report, Link.die, History.die]
      rw [update_comm htu]

/-- A message is put behind the one that is taken, or there is another room for it. -/
theorem independent_send_recv {m : Message} :
    Independent (.ok ()) (nngSend m) nngRecvmsg := by
  intro t u s b s₁ c s₂ htu hf hg
  obtain ⟨hroom, hr⟩ := nngSend_ok.mp hf
  obtain ⟨m', ms, hq, hr'⟩ := nngRecvmsg_ok.mp hg
  obtain ⟨rfl, rfl⟩ := Prod.mk.inj hr
  obtain ⟨rfl, rfl⟩ := Prod.mk.inj hr'
  obtain rfl := Side.eq_peer htu
  have hlength : ms.length < s.room t.peer := by
    rw [hq, List.length_cons] at hroom
    omega
  refine ⟨(s.push t m).pop t.peer m' (ms ++ [m]), nngRecvmsg_ok.mpr ⟨m', ms ++ [m], ?_, rfl⟩,
    nngSend_ok.mpr ⟨?_, ?_⟩⟩
  · simp [hq]
  · simpa using hlength
  · simp [Link.push, Link.pop, History.send, History.receive]

theorem independent_send_send {m m' : Message} :
    Independent (.ok ()) (nngSend m) (nngSend m') := by
  intro t u s b s₁ c s₂ htu hf hg
  obtain ⟨hroom, hr⟩ := nngSend_ok.mp hf
  obtain ⟨hroom', hr'⟩ := nngSend_ok.mp hg
  obtain ⟨rfl, rfl⟩ := Prod.mk.inj hr
  obtain ⟨rfl, rfl⟩ := Prod.mk.inj hr'
  obtain rfl := Side.eq_peer htu
  have hne : t ≠ t.peer := (Side.peer_ne t).symm
  refine ⟨(s.push t m).push t.peer m', nngSend_ok.mpr ⟨?_, rfl⟩, nngSend_ok.mpr ⟨?_, ?_⟩⟩
  · simpa [update_of_ne hne] using hroom'
  · simpa [update_of_ne hne.symm] using hroom
  · simp only [Link.push, History.send, Side.peer_peer, update_of_ne hne, update_of_ne hne.symm]
    rw [update_comm (β := fun _ => List Message) hne (s.past.sent t ++ [m]),
      update_comm (β := fun _ => List Message) hne (s.queue t ++ [m'])]

theorem independent_recv_recv : Independent (.ok ()) nngRecvmsg nngRecvmsg := by
  intro t u s b s₁ c s₂ htu hf hg
  obtain ⟨m, ms, hq, hr⟩ := nngRecvmsg_ok.mp hf
  obtain ⟨m', ms', hq', hr'⟩ := nngRecvmsg_ok.mp hg
  obtain ⟨rfl, rfl⟩ := Prod.mk.inj hr
  obtain ⟨rfl, rfl⟩ := Prod.mk.inj hr'
  refine ⟨(s.pop t m ms).pop u m' ms', nngRecvmsg_ok.mpr ⟨m', ms', ?_, rfl⟩,
    nngRecvmsg_ok.mpr ⟨m, ms, ?_, ?_⟩⟩
  · simpa [update_of_ne (Ne.symm htu)] using hq'
  · simpa [update_of_ne htu] using hq
  · simp only [Link.pop, History.receive, update_of_ne htu, update_of_ne (Ne.symm htu)]
    rw [update_comm htu, update_comm htu]

theorem independent (hf : Statement f) (hg : Statement g) : Independent (.ok ()) f g := by
  cases hf with
  | call => exact independent_call
  | report => exact independent_report hg
  | send m =>
      cases hg with
      | call => exact independent_symm independent_call
      | report => exact independent_symm (independent_report (.send m))
      | send m' => exact independent_send_send
      | recv => exact independent_send_recv
  | recv =>
      cases hg with
      | call => exact independent_symm independent_call
      | report => exact independent_symm (independent_report .recv)
      | send m' => exact independent_symm independent_send_recv
      | recv => exact independent_recv_recv

end Independence

theorem commutes : Commutes turn (Pool.All Statement) :=
  Pool.commutes (Except.ok ()) independent

/-! ### The programs -/

section Programs

variable {m : Message} {size : ℕ} {source : String}

theorem all_call : (checked call source : Code Unit).run.All Statement := all_checked .call

theorem all_send : (checked (nngSend m) source : Code Unit).run.All Statement :=
  all_checked (.send m)

theorem all_recvMsg : recvMsg.run.All Statement := all_made .recv

theorem all_makeMsg : (makeMsg size).run.All Statement :=
  all_call.bind_code fun _ => trivial

theorem all_sendNew : (sendNew size).run.All Statement :=
  all_makeMsg.bind_code fun _ => all_send

theorem all_die : die.run.All Statement :=
  (Prog.All.act_code .report).bind_code fun _ => trivial

theorem all_recvChecked : (recvChecked size).run.All Statement := by
  apply all_recvMsg.bind_code
  intro m
  by_cases hm : m.length = size
  · rw [if_neg (not_not.mpr hm)]
    trivial
  · rw [if_pos hm]
    exact all_die.bind_code fun _ => trivial

theorem all_on {s : Link} {p q : Prog Side Reply Link Unit} (hp : p.All Statement)
    (hq : q.All Statement) : (World.on s p q).All Statement := by
  intro t x hx
  cases t with
  | client => exact Option.some.inj hx ▸ hp
  | server => exact Option.some.inj hx ▸ hq

theorem all_throughput (room : Side → ℕ+) (msgsize : Side → ℕ) (count : Side → ℤ) :
    (World.throughput room msgsize count).All Statement := by
  apply all_on
  · apply Prog.All.orExit
    refine all_call.bind_code fun _ => all_call.bind_code fun _ => ?_
    refine all_call.bind_code fun _ => all_call.bind_code fun _ => ?_
    refine all_sendNew.bind_code fun _ => ?_
    refine (Prog.All.iterate (fun _ => all_sendNew) _ _).bind_code fun _ => ?_
    exact all_recvMsg.bind_code fun _ => trivial
  · apply Prog.All.orExit
    refine all_call.bind_code fun _ => all_call.bind_code fun _ => ?_
    refine all_call.bind_code fun _ => all_recvMsg.bind_code fun _ => ?_
    refine (Prog.All.iterate (fun _ => ?_) _ _).bind_code fun _ => all_send
    exact all_recvChecked.bind_code fun _ => trivial

theorem all_latency (room : Side → ℕ+) (msgsize : Side → ℕ) (trips : Side → ℤ) :
    (World.latency room msgsize trips).All Statement := by
  apply all_on
  · apply Prog.All.orExit
    refine all_call.bind_code fun _ => all_call.bind_code fun _ => ?_
    refine all_makeMsg.bind_code fun m => ?_
    refine (Prog.All.iterate (fun _ => ?_) _ _).bind_code fun _ => trivial
    exact all_send.bind_code fun _ => all_recvMsg
  · apply Prog.All.orExit
    refine all_call.bind_code fun _ => all_call.bind_code fun _ => ?_
    refine Prog.All.iterate (fun _ => ?_) _ _
    exact all_recvChecked.bind_code fun _ => all_send

end Programs

/-! ### Turns -/

/-- Some schedule leads from one world to the other. -/
def Leads (w w' : World) : Prop := ∃ ls, Run.follow turn w ls = some w'

theorem Leads.refl (w : World) : Leads w w := ⟨[], rfl⟩

theorem Leads.trans {w w' w'' : World} (h : Leads w w') (h' : Leads w' w'') : Leads w w'' := by
  obtain ⟨ls, hls⟩ := h
  obtain ⟨ms, hms⟩ := h'
  exact ⟨ls ++ ms, by rw [follow_append, hls]; exact hms⟩

section Turns

variable {s s' : Link} {p p' q : Prog Side Reply Link Unit}

theorem leads_client (h : Prog.Alone .client (.ok ()) s p s' p') :
    Leads (World.on s p q) (World.on s' p' q) := by
  obtain ⟨ls, hls⟩ := h.follow (w := World.on s p q) rfl rfl
  refine ⟨ls, hls.trans (congrArg some ?_)⟩
  rw [Pool.spawn, World.on, World.on]
  congr 1
  ext t
  cases t <;> rfl

theorem leads_server (h : Prog.Alone .server (.ok ()) s p s' p') :
    Leads (World.on s q p) (World.on s' q p') := by
  obtain ⟨ls, hls⟩ := h.follow (w := World.on s q p) rfl rfl
  refine ⟨ls, hls.trans (congrArg some ?_)⟩
  rw [Pool.spawn, World.on, World.on]
  congr 1
  ext t
  cases t <;> rfl

end Turns

/-! ### What a side does in its turn -/

section Functions

variable {s : Link} {t : Side} {m : Message} {source : String}

theorem yields_call : Code.Yields t (.ok ()) s (checked call source) () s := yields_checked rfl

theorem yields_send (hroom : (s.queue t.peer).length < s.room t.peer) :
    Code.Yields t (.ok ()) s (checked (nngSend m) source) () (s.push t m) :=
  yields_checked (nngSend_ok.mpr ⟨hroom, rfl⟩)

theorem yields_makeMsg {size : ℕ} :
    Code.Yields t (.ok ()) s (makeMsg size) (List.replicate size 0) s :=
  yields_call.bind (.pure _)

theorem yields_sendNew {size : ℕ} (hroom : (s.queue t.peer).length < s.room t.peer) :
    Code.Yields t (.ok ()) s (sendNew size) () (s.push t (List.replicate size 0)) :=
  yields_makeMsg.bind (yields_send hroom)

theorem yields_recvMsg {ms : List Message} (hq : s.queue t = m :: ms) :
    Code.Yields t (.ok ()) s recvMsg m (s.pop t m ms) :=
  yields_made (nngRecvmsg_ok.mpr ⟨m, ms, hq, rfl⟩)

theorem yields_recvChecked {msgsize : ℕ} {ms : List Message} (hq : s.queue t = m :: ms)
    (hm : m.length = msgsize) : Code.Yields t (.ok ()) s (recvChecked msgsize) m (s.pop t m ms) := by
  apply (yields_recvMsg hq).bind
  rw [if_neg (not_not.mpr hm)]
  exact .pure m

end Functions

/-! ### The end -/

section End

variable {w : World} {t : Side} {s : Link}

theorem turn_of_returned (hcode : w.code t = some (.pure ())) : turn w t = none := by
  simp [turn, Pool.run, hcode]

theorem turn_of_waiting {β : Type} {f : Action β} {k : β → Prog Side Reply Link Unit}
    (hcode : w.code t = some (.act f k)) (hf : f t (.ok ()) w.shared = none) :
    turn w t = none := by
  simp [turn, Pool.run, hcode, hf]

/-- Every schedule can be completed to the end that one of them reaches, with the
same number of statements. -/
theorem all_schedules {w₀ z : World} (hw₀ : w₀.All Statement) (hz : Leads w₀ z)
    (hstuck : Stuck turn z) : ∃ n, ∀ ks w, Run.follow turn w₀ ks = some w →
      ∃ ms, Run.follow turn w ms = some z ∧ ks.length + ms.length = n := by
  obtain ⟨ls, hls⟩ := hz
  exact ⟨ls.length, fun ks w hw => commutes.complete hw₀ hstuck hls hw⟩

end End

end Nngpp.Perf
