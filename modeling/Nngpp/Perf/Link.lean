import Nngpp.Perf.Model

/-!
What a protocol over the link may rely on, and how its two sides are verified.

nng keeps the messages in order (`Ordered`): what a side has received, with what
is on its way, is part of what its peer has sent, and all of it when nothing is
lost. The rest is up to the two programs. A protocol is a property of the history,
and each side has to keep it with the messages that it sends and receives; it
knows nothing but its own part of the history, which nobody else changes.
-/

namespace Nngpp.Perf

open Function Lib

/-- What has been received was sent before, in this order. -/
def Delivered (h : History) : Prop := ∀ t, (h.received t).Sublist (h.sent t.peer)

/-- The messages keep their order, and with `strict` none is lost. -/
structure Ordered (strict : Prop) (s : Link) : Prop where
  sublist : ∀ t, (s.past.received t ++ s.queue t).Sublist (s.past.sent t.peer)
  complete : strict → ∀ t, s.past.received t ++ s.queue t = s.past.sent t.peer

namespace Ordered

variable {strict : Prop} {s : Link} {t : Side} {m : Message}

theorem delivered (h : Ordered strict s) : Delivered s.past := fun t =>
  (List.sublist_append_left _ _).trans (h.sublist t)

/-- A message is put behind the others that are on their way. -/
theorem push (h : Ordered strict s) : Ordered strict { s with
    queue := update s.queue t.peer (s.queue t.peer ++ [m])
    past := s.past.send t m } where
  sublist u := by
    by_cases hu : u = t.peer
    · subst hu
      simp only [History.received_send, update_self, History.sent_send, Side.peer_peer]
      rw [← List.append_assoc]
      simpa using (h.sublist t.peer).append_right [m]
    · have hpeer : u.peer ≠ t := fun heq => hu (by rw [← heq, Side.peer_peer])
      simpa [update_of_ne hu, update_of_ne hpeer] using h.sublist u
  complete hstrict u := by
    by_cases hu : u = t.peer
    · subst hu
      simp only [History.received_send, update_self, History.sent_send, Side.peer_peer]
      rw [← List.append_assoc, h.complete hstrict, Side.peer_peer]
    · have hpeer : u.peer ≠ t := fun heq => hu (by rw [← heq, Side.peer_peer])
      simpa [update_of_ne hu, update_of_ne hpeer] using h.complete hstrict u

/-- The first message is taken. -/
theorem pop {ms : List Message} (h : Ordered strict s) (hq : s.queue t = m :: ms) :
    Ordered strict { s with queue := update s.queue t ms, past := s.past.receive t m } := by
  have hsame : ∀ u, (s.past.receive t m).received u ++ update s.queue t ms u =
      s.past.received u ++ s.queue u := by
    intro u
    by_cases hu : u = t
    · subst hu
      simp [hq]
    · simp [update_of_ne hu]
  refine ⟨fun u => ?_, fun hstrict u => ?_⟩
  · rw [hsame]
    exact h.sublist u
  · rw [hsame]
    exact h.complete hstrict u

/-- A message gets lost. -/
theorem lose (h : Ordered strict s) (hlenient : ¬strict) (i : ℕ) :
    Ordered strict { s with queue := update s.queue t ((s.queue t).eraseIdx i) } where
  sublist u := by
    by_cases hu : u = t
    · subst hu
      simp only [update_self]
      exact (List.Sublist.append_left (List.eraseIdx_sublist _ _) _).trans (h.sublist u)
    · simpa [update_of_ne hu] using h.sublist u
  complete hstrict := absurd hstrict hlenient

end Ordered

theorem ordered_init (strict : Prop) (room : Side → ℕ+) : Ordered strict (.init room) where
  sublist _ := List.Sublist.refl _
  complete _ _ := rfl

/-! ### Contracts -/

/-- What a side knows: its own part of the history. -/
structure View where
  side : Side
  sent : List Message
  received : List Message

/-- The part of a history that a side knows. -/
def History.view (h : History) (t : Side) : View := ⟨t, h.sent t, h.received t⟩

theorem view_receive {h : History} {t : Side} {m : Message} {v : View} (hv : h.view t = v) :
    (h.receive t m).view t = { v with received := v.received ++ [m] } := by
  simp [← hv, History.view]

theorem view_send {h : History} {t : Side} {m : Message} {v : View} (hv : h.view t = v) :
    (h.send t m).view t = { v with sent := v.sent ++ [m] } := by
  simp [← hv, History.view]

def logic (strict : Prop) (P : History → Prop) : Logic Side Link View where
  Inv s := Ordered strict s ∧ P s.past
  Sees t s v := s.past.view t = v

variable {strict : Prop} {P : History → Prop} {t : Side} {v : View}

/-- A side changes its own part of the history only. -/
theorem frames {s s' : Link} (h : ∀ u, u ≠ t → s'.past.view u = s.past.view u) :
    (logic strict P).Frames t s s' := by
  intro u hu w hw
  exact (h u hu).trans hw

theorem spec_call {Q : Error → View → Prop} (h : ∀ e, Q e v) :
    (logic strict P).Spec t call v Q := by
  intro s ans r s' hs hsees hf
  obtain ⟨rfl, rfl⟩ := Prod.mk.inj (Option.some.inj hf)
  exact ⟨hs, fun _ _ _ hw => hw, v, hsees, h _⟩

/-- A message is sent, or the call fails and nothing happens. -/
theorem spec_nngSend {m : Message} {Q : Error → View → Prop}
    (hP : ∀ h : History, P h → Delivered h → h.view t = v → P (h.send t m))
    (hok : Q .success { v with sent := v.sent ++ [m] }) (herror : ∀ e : Failure, Q e.val v) :
    (logic strict P).Spec t (nngSend m) v Q := by
  intro s ans r s' hs hsees hf
  cases ans with
  | error e =>
      obtain ⟨rfl, rfl⟩ := Prod.mk.inj (Option.some.inj hf)
      exact ⟨hs, fun _ _ _ hw => hw, v, hsees, herror e⟩
  | ok a =>
      obtain ⟨-, hf⟩ := Option.ite_none_right_eq_some.mp hf
      obtain ⟨rfl, rfl⟩ := Prod.mk.inj (Option.some.inj hf)
      refine ⟨⟨hs.1.push, hP _ hs.2 hs.1.delivered hsees⟩, ?_, _, view_send hsees, hok⟩
      apply frames
      intro u hu
      simp [History.view, update_of_ne hu]

/-- A message is received, which the peer has sent, or the call fails and nothing
happens. -/
theorem spec_nngRecvmsg {Q : Answer Message → View → Prop}
    (hP : ∀ (h : History) m, P h → Delivered (h.receive t m) → h.view t = v → P (h.receive t m))
    (hok : ∀ (h : History) m, P h → Delivered h →
      h.view t = { v with received := v.received ++ [m] } →
      Q (.ok m) { v with received := v.received ++ [m] })
    (herror : ∀ e, Q (.error e) v) : (logic strict P).Spec t nngRecvmsg v Q := by
  intro s ans r s' hs hsees hf
  cases ans with
  | error e =>
      obtain ⟨rfl, rfl⟩ := Prod.mk.inj (Option.some.inj hf)
      exact ⟨hs, fun _ _ _ hw => hw, v, hsees, herror e⟩
  | ok a =>
      simp only [nngRecvmsg] at hf
      split at hf
      · cases hf
      · rename_i m ms hq
        obtain ⟨rfl, rfl⟩ := Prod.mk.inj (Option.some.inj hf)
        have hordered := hs.1.pop hq
        have hkept := hP _ m hs.2 hordered.delivered hsees
        have hview := view_receive (m := m) hsees
        refine ⟨⟨hordered, hkept⟩, ?_, _, hview, hok _ m hkept hordered.delivered hview⟩
        apply frames
        intro u hu
        simp [History.view, update_of_ne hu]

theorem spec_report {Q : Unit → View → Prop}
    (hP : ∀ h : History, P h → Delivered h → h.view t = v → P (h.die t)) (hok : Q () v) :
    (logic strict P).Spec t report v Q := by
  intro s ans r s' hs hsees hf
  obtain ⟨rfl, rfl⟩ := Prod.mk.inj (Option.some.inj hf)
  have hdied := hP _ hs.2 hs.1.delivered hsees
  exact ⟨⟨⟨hs.1.sublist, hs.1.complete⟩, hdied⟩, fun _ _ _ hw => hw, v, hsees, hok⟩

/-! ### The functions -/

section Functions

variable {E : Exception → View → Prop} {source : String}

theorem ok_call {Q : Unit → View → Prop} (hQ : Q () v) :
    (logic strict P).Ok t (checked call source) Q (fun _ _ => True) v := by
  apply ok_checked
  apply spec_call
  intro e
  split
  · exact hQ
  · trivial

theorem ok_makeMsg {size : ℕ} {Q : Message → View → Prop} (hQ : Q (List.replicate size 0) v) :
    (logic strict P).Ok t (makeMsg size) Q (fun _ _ => True) v := by
  apply Logic.Ok.bind
  apply ok_call
  exact Logic.Ok.pure hQ

/-- Both ways to send a message. -/
theorem ok_send {m : Message} {Q : Unit → View → Prop}
    (hP : ∀ h : History, P h → Delivered h → h.view t = v → P (h.send t m))
    (hQ : Q () { v with sent := v.sent ++ [m] }) :
    (logic strict P).Ok t (checked (nngSend m) source) Q (fun _ _ => True) v := by
  apply ok_checked
  apply spec_nngSend hP
  · rwa [if_pos rfl]
  · intro e
    rw [if_neg e.property]
    trivial

theorem ok_recvMsg {Q : Message → View → Prop}
    (hP : ∀ (h : History) m, P h → Delivered (h.receive t m) → h.view t = v → P (h.receive t m))
    (hQ : ∀ (h : History) m, P h → Delivered h →
      h.view t = { v with received := v.received ++ [m] } →
      Q m { v with received := v.received ++ [m] }) :
    (logic strict P).Ok t recvMsg Q (fun _ _ => True) v := by
  apply ok_made
  apply spec_nngRecvmsg hP hQ
  exact fun _ => trivial

/-- A message of another size is reported. -/
theorem ok_recvChecked {msgsize : ℕ} {Q : Message → View → Prop}
    (hP : ∀ (h : History) m, P h → Delivered (h.receive t m) → h.view t = v → P (h.receive t m))
    (hdie : ∀ (h : History) m, P h → Delivered h →
      h.view t = { v with received := v.received ++ [m] } → m.length ≠ msgsize → P (h.die t))
    (hQ : ∀ (h : History) m, P h → Delivered h →
      h.view t = { v with received := v.received ++ [m] } → m.length = msgsize →
      Q m { v with received := v.received ++ [m] }) :
    (logic strict P).Ok t (recvChecked msgsize) Q (fun _ _ => True) v := by
  apply Logic.Ok.bind
  apply ok_recvMsg hP
  intro h m hh hdelivered hv
  by_cases hm : m.length = msgsize
  · rw [if_neg (not_not.mpr hm)]
    exact Logic.Ok.pure (hQ h m hh hdelivered hv hm)
  · rw [if_pos hm]
    apply Logic.Ok.bind
    apply Logic.Ok.bind
    apply Logic.Ok.act
    apply spec_report
    · exact fun h' hh' hdelivered' hv' => hdie h' m hh' hdelivered' hv' hm
    · trivial

end Functions

/-! ### Steps -/

variable {Done : View → Prop} {w w' : World}

/-- Nothing gets lost in this step. -/
def Label.Keeps : Label → Prop
  | .lose _ _ => False
  | _ => True

theorem sound_step (hw : Pool.Sound (logic strict P) Done w) {l : Label} (hstep : Step w l w')
    (hkeeps : strict → l.Keeps) : Pool.Sound (logic strict P) Done w' := by
  cases l with
  | run t ans => exact hw.run hstep
  | lose t i =>
      obtain ⟨-, hw'⟩ := Option.ite_none_right_eq_some.mp hstep
      rw [← Option.some.inj hw']
      have hinv : Ordered strict w.shared ∧ P w.shared.past := hw.inv
      exact Pool.Sound.outside hw ⟨hinv.1.lose (fun h => hkeeps h) i, hinv.2⟩ fun _ _ h => h

/-- Two programs that keep a protocol keep it together. -/
theorem sound_on {room : Side → ℕ+} {p q : Prog Side Reply Link Unit}
    (hP : P ⟨fun _ => [], fun _ => [], fun _ => false⟩)
    (hp : (logic strict P).Safe .client p (fun _ => Done) ⟨.client, [], []⟩)
    (hq : (logic strict P).Safe .server q (fun _ => Done) ⟨.server, [], []⟩) :
    Pool.Sound (logic strict P) Done (World.on (.init room) p q) where
  inv := ⟨ordered_init strict room, hP⟩
  threads t x hx := by
    cases t with
    | client =>
        obtain rfl := Option.some.inj hx
        exact ⟨_, rfl, hp⟩
    | server =>
        obtain rfl := Option.some.inj hx
        exact ⟨_, rfl, hq⟩
  absent t ht := by cases t <;> cases ht

variable {tr : List (Transition World Label)} {w₀ : World}

theorem sound_run (hw₀ : Pool.Sound (logic strict P) Done w₀) (run : Run Step w₀ tr w)
    (hkeeps : strict → ∀ e ∈ tr, e.label.Keeps) : Pool.Sound (logic strict P) Done w := by
  have hok : ∀ e ∈ tr, strict → e.label.Keeps := fun e he h => hkeeps h e he
  exact run.guarded hw₀ (fun _ _ _ hw hstep hl => sound_step hw hstep hl) hok

end Nngpp.Perf
