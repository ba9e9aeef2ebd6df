import Nngpp.Rest.Forwarding

/-!
The proxy between its clients and a server.

The proxy sends the data of each request unchanged, and answers with the reply
that comes back. So when the other end of the socket is a server that makes a
reply of each message, a client gets what the server makes of its own data,
however the requests of different clients are interleaved.
-/

namespace Nngpp.Rest

open Function Lib

variable {strict : Prop} {t : Tid} {w w' : World} {data : Req → List UInt8}
  {P : Req → List UInt8 → Prop}

/-! ### Steps -/

abbrev SoundLoaded (strict : Prop) (data : Req → List UInt8) (P : Req → List UInt8 → Prop)
    (w : World) : Prop :=
  Pool.Sound (loadedLogic strict data P) Done w

/-- What nng delivers for a request satisfies `P`. -/
def Delivers (P : Req → List UInt8 → Prop) (w : World) : Label → Prop
  | .recvDone j (.ok (_, body)) _ => ∀ r, w.shared.request j = some r → P r body
  | _ => True

namespace SoundLoaded

theorem request (hl : SoundLoaded strict data P w) (hw : Sound strict w) {a : Req}
    (ht : w.code t = none) (ha : w.shared.stage a = .new) :
    SoundLoaded strict data P (w.spawn t (restHandle a) (w.shared.arrive a t)) := by
  have hs : Inv strict w.shared := hw.inv
  have hs' : Inv strict (w.shared.arrive a t) := (hw.request ht ha).inv
  have hloaded : Loaded data P w.shared := hl.inv.2
  obtain ⟨hsettled, hjobless, hunlocked⟩ := hw.idle ht
  obtain ⟨-, houtput, hrecycled⟩ := (hs.requests a).untouched (by simp [ha]) (by simp [ha])
  have hframes : (logic strict).Frames t w.shared (w.shared.arrive a t) :=
    (frame_arrive ha).frames
  apply Pool.Sound.spawn hl (v := ⟨some a, some (.open a none), none, none⟩)
  · exact ⟨hs', hloaded.known, hloaded.sends, hloaded.replies⟩
  · exact hframes
  · refine ⟨by simp [Shared.arrive], ?_, sees_jobless hjobless, ?_⟩
    · refine sees_pending (p := .open a none) (update_self ..) houtput ((hs.requests a).of_new ha)
        hrecycled fun r hr => ?_
      by_contra hne
      have hne : r ≠ a := hne
      exact hsettled r (by simpa [Shared.arrive, hne] using hr)
    · intro p
      refine ⟨?_, fun hp => absurd hp.1 hunlocked⟩
      intro hp
      cases hp
  · exact safe_restHandle_loaded a

/-- The invocation of a callback starts no send, so that all is known of it. -/
theorem callback (hl : SoundLoaded strict data P w) {j : JobPtr} {s : Shared}
    (hw' : Sound strict (w.spawn t (restJobCb j) s)) (hframe : Frame t w.shared s)
    (hloaded : Loaded data P s) : SoundLoaded strict data P (w.spawn t (restJobCb j) s) := by
  obtain ⟨v, hsees, hsafe⟩ := hw'.threads t _ (update_self ..)
  have hsafe' : (loadedLogic strict data P).Safe t (restJobCb j) (fun _ => Done) v :=
    hsafe.and all_restJobCb
  have hframes : (logic strict).Frames t w.shared s := hframe.frames
  exact Pool.Sound.spawn hl ⟨hw'.inv, hloaded⟩ hframes hsees hsafe'

theorem sendDone (hl : SoundLoaded strict data P w) (hw : Sound strict w) {j : JobPtr}
    {c : Option Context} {e : Error} (hop : (w.shared.jobs j).aio.op = some (.send c))
    (hw' : Sound strict (w.spawn t (restJobCb j) ((w.shared.sendDone j e).callback j t))) :
    SoundLoaded strict data P
      (w.spawn t (restJobCb j) ((w.shared.sendDone j e).callback j t)) := by
  have hs : Inv strict w.shared := hw.inv
  have hloaded : Loaded data P w.shared := hl.inv.2
  obtain ⟨howner, r, hrequest, hstage, -, -⟩ := (hs.jobs j).of_op (by simp [hop])
  exact hl.callback hw' (frame_sendDone howner hrequest hstage) (hloaded.sendDone e).callback

theorem recvDone (hl : SoundLoaded strict data P w) (hw : Sound strict w) {j : JobPtr}
    {c : Option Context} {ans : Answer (MsgPtr × List UInt8)}
    (hop : (w.shared.jobs j).aio.op = some (.recv c))
    (hdelivers : Delivers P w (.recvDone j ans t))
    (hw' : Sound strict (w.spawn t (restJobCb j) ((w.shared.recvDone j c ans).callback j t))) :
    SoundLoaded strict data P
      (w.spawn t (restJobCb j) ((w.shared.recvDone j c ans).callback j t)) := by
  have hs : Inv strict w.shared := hw.inv
  have hloaded : Loaded data P w.shared := hl.inv.2
  obtain ⟨howner, r, hrequest, hstage, -, -⟩ := (hs.jobs j).of_op (by simp [hop])
  apply hl.callback hw' (frame_recvDone howner hrequest hstage)
  apply Loaded.callback
  apply hloaded.recvDone
  intro m body r' hans hr'
  subst hans
  exact hdelivers r' hr'

theorem step (hl : SoundLoaded strict data P w) (hw : Sound strict w) (hw' : Sound strict w')
    {l : Label} (hstep : Step w l w') (hdelivers : Delivers P w l) :
    SoundLoaded strict data P w' := by
  cases hstep.stepped with
  | run hrun => exact Pool.Sound.run hl hrun
  | request absent new => exact hl.request hw absent new
  | sendDone op absent => exact hl.sendDone hw op hw'
  | recvDone op absent delivers => exact hl.recvDone hw op hdelivers hw'
  | dispose taken =>
      have hloaded : Loaded data P w.shared := hl.inv.2
      apply Pool.Sound.outside hl
      · exact ⟨hw'.inv, hloaded.known, hloaded.sends, hloaded.replies⟩
      · exact fun u v hsees => ⟨hsees.serving, hsees.pending, hsees.job, hsees.list⟩

end SoundLoaded

/-! ### Runs -/

variable {tr : List (Transition World Label)}

theorem soundLoaded_init (strict : Prop) (data : Req → List UInt8)
    (P : Req → List UInt8 → Prop) : SoundLoaded strict data P (.init data) := by
  have hsound := sound_init strict data
  refine ⟨⟨hsound.inv, loaded_init data P⟩, ?_, hsound.absent⟩
  intro t p hcode
  cases hcode

theorem loaded_run (run : Run Step (.init data) tr w)
    (hdelivers : ∀ e ∈ tr, Delivers P e.pre e.label) : SoundLoaded False data P w := by
  suffices H : Sound False w ∧ SoundLoaded False data P w from H.2
  apply run.guarded (I := fun w => Sound False w ∧ SoundLoaded False data P w)
    ⟨sound_init False data, soundLoaded_init False data P⟩ _ hdelivers
  intro w l w' hw hstep hl
  have hw' := sound_step hw.1 hstep False.elim
  exact ⟨hw', hw.2.step hw.1 hw' hstep hl⟩

/-- A send that is under way on a job, for a request, with this message. -/
structure Sending (s : Shared) (j : JobPtr) (c : Context) (r : Req) (m : Message) : Prop where
  op : (s.jobs j).aio.op = some (.send (some c))
  slot : (s.jobs j).aio.slot = some m
  request : s.request j = some r
  source : c.source = some r

/-- The message of a send has the data of the request for which its context was
opened. -/
theorem SoundLoaded.sending (hl : SoundLoaded strict data P w) (hw : Sound strict w) {j : JobPtr}
    {o : Option Context} (hop : (w.shared.jobs j).aio.op = some (.send o)) :
    ∃ c r m, o = some c ∧ Sending w.shared j c r m ∧ m.body = data r := by
  have hs : Inv strict w.shared := hw.inv
  have hloaded : Loaded data P w.shared := hl.inv.2
  obtain ⟨howner, r, hrequest, -, -, hawaits⟩ := (hs.jobs j).of_op (by simp [hop])
  obtain ⟨c, hsource, -, ⟨-, hsend, -⟩ | ⟨-, hrecv, -⟩⟩ := hawaits.started
  · obtain ⟨m, hslot, hbody⟩ := hloaded.sends j _ r howner hsend hrequest
    obtain rfl : o = some c := by simpa [hop] using hsend
    exact ⟨c, r, m, rfl, ⟨hsend, hslot, hrequest, hsource⟩, hbody⟩
  · rw [hop] at hrecv
    cases hrecv

/-- A receive is on the context of the request of its job. -/
theorem receiving (hw : Sound strict w) {j : JobPtr} {o : Option Context} {r : Req}
    (hop : (w.shared.jobs j).aio.op = some (.recv o)) (hr : w.shared.request j = some r) :
    ∃ c, o = some c ∧ c.source = some r := by
  have hs : Inv strict w.shared := hw.inv
  obtain ⟨-, r', hrequest, -, -, hawaits⟩ := (hs.jobs j).of_op (by simp [hop])
  obtain rfl : r' = r := Option.some.inj (hrequest.symm.trans hr)
  obtain ⟨c, hsource, -, ⟨-, hsend, -⟩ | ⟨-, hrecv, -⟩⟩ := hawaits.started
  · rw [hop] at hsend
    cases hsend
  · exact ⟨c, by simpa [hop] using hrecv, hsource⟩

theorem taken_callback (s : Shared) (j : JobPtr) (t : Tid) :
    (s.callback j t).taken = s.taken := by
  unfold Shared.callback Shared.moveStage
  cases s.request j <;> rfl

/-- nng completes an operation that was started. -/
theorem Step.sendDone {j : JobPtr} {e : Error} (h : Step w (.sendDone j e t) w') :
    ∃ o, (w.shared.jobs j).aio.op = some (.send o) ∧
      w'.shared = (w.shared.sendDone j e).callback j t := by
  cases h.stepped with
  | sendDone op absent => exact ⟨_, op, rfl⟩

theorem Step.recvDone {j : JobPtr} {ans : Answer (MsgPtr × List UInt8)}
    (h : Step w (.recvDone j ans t) w') : ∃ o, (w.shared.jobs j).aio.op = some (.recv o) := by
  cases h.stepped with
  | recvDone op absent delivers => exact ⟨_, op⟩

/-- Every step of a run is taken in a state in which each message that is being sent
has the data of its request. -/
theorem loaded_of_mem (run : Run Step (.init data) tr w) {e : Transition World Label}
    (he : e ∈ tr) : Sound False e.pre ∧ SoundLoaded False data (fun _ _ => True) e.pre ∧
      Step e.pre e.label e.post := by
  have hany : ∀ w l, Delivers (fun _ _ => True) w l := by
    intro w l
    cases l with
    | recvDone j ans t => cases ans <;> simp [Delivers]
    | _ => trivial
  have hinit := And.intro (sound_init False data) (soundLoaded_init False data fun _ _ => True)
  have hstep : ∀ w l w', Sound False w ∧ SoundLoaded False data (fun _ _ => True) w →
      Step w l w' → Sound False w' ∧ SoundLoaded False data (fun _ _ => True) w' := by
    intro w l w' hw hstep
    have hw' := sound_step hw.1 hstep False.elim
    exact ⟨hw', hw.2.step hw.1 hw' hstep (hany w l)⟩
  obtain ⟨⟨hw, hl⟩, hlast⟩ := run.of_mem hinit hstep he
  exact ⟨hw, hl, hlast⟩

/-- Whenever a send ends, well or not, its message has the data of the request for
which its context was opened; when it ends well, nng takes just this message. -/
theorem bodies_forwarded (run : Run Step (.init data) tr w) {e : Transition World Label}
    (he : e ∈ tr) {j : JobPtr} {code : Error} {t : Tid} (hlabel : e.label = .sendDone j code t) :
    ∃ c r m, Sending e.pre.shared j c r m ∧ m.body = data r ∧
      (code = .success → e.post.shared.taken m.ptr = some j) := by
  obtain ⟨hw, hl, hstep⟩ := loaded_of_mem run he
  rw [hlabel] at hstep
  obtain ⟨o, hop, hpost⟩ := hstep.sendDone
  obtain ⟨c, r, m, -, hsending, hbody⟩ := hl.sending hw hop
  refine ⟨c, r, m, hsending, hbody, fun hcode => ?_⟩
  rw [hpost, hcode, taken_callback]
  simp [Shared.sendDone, hsending.slot]

/-- The first message that is sent in `exchanged`. -/
theorem bodies_forwarded_exchanged :
    ∃ tr w e, Run Step (.init fun _ => [1, 2, 3]) tr w ∧ e ∈ tr ∧
      e.label = .sendDone 5 .success 1 ∧ ∃ c r m, Sending e.pre.shared 5 c r m ∧
        m.body = [1, 2, 3] ∧ e.post.shared.taken m.ptr = some 5 := by
  obtain ⟨w, hw⟩ : ∃ w, Run.follow exec (.init fun _ => [1, 2, 3]) exchanged = some w :=
    ⟨_, rfl⟩
  obtain ⟨tr, run, hlabels⟩ := Run.of_follow_labels hw
  have hmem : Label.sendDone 5 .success 1 ∈ tr.map Transition.label := by
    rw [hlabels]
    simp [exchanged]
  obtain ⟨e, he, hlabel⟩ := List.mem_map.mp hmem
  obtain ⟨c, r, m, hsending, hbody, htaken⟩ := bodies_forwarded run he hlabel
  exact ⟨tr, w, e, run, he, hlabel, c, r, m, hsending, hbody, htaken rfl⟩

/-- nng delivers on a context what a server makes of a message that was sent on it. -/
def Serves (f : List UInt8 → List UInt8) (tr : List (Transition World Label)) : Prop :=
  ∀ e ∈ tr, ∀ j m body t c, e.label = .recvDone j (.ok (m, body)) t →
    (e.pre.shared.jobs j).aio.op = some (.recv c) →
    ∃ e' ∈ tr, ∃ j' t' m', e'.label = .sendDone j' .success t' ∧
      (e'.pre.shared.jobs j').aio.op = some (.send c) ∧
      (e'.pre.shared.jobs j').aio.slot = some m' ∧ body = f m'.body

/-- What a server makes of the messages is what it makes of the data of the requests. -/
theorem Serves.delivers {f : List UInt8 → List UInt8} (hf : Serves f tr)
    (run : Run Step (.init data) tr w) :
    ∀ e ∈ tr, Delivers (fun r body => body = f (data r)) e.pre e.label := by
  intro e he
  obtain ⟨hw, -, hstep⟩ := loaded_of_mem run he
  cases hlabel : e.label with
  | recvDone j ans t =>
      cases ans with
      | error _ => trivial
      | ok p =>
          obtain ⟨m, body⟩ := p
          intro r hr
          rw [hlabel] at hstep
          obtain ⟨o, hop⟩ := hstep.recvDone
          obtain ⟨c, rfl, hsource⟩ := receiving hw hop hr
          -- the message was sent on the context of the same request
          obtain ⟨e', he', j', t', m', -, hop', hslot', rfl⟩ := hf e he j m body t _ hlabel hop
          obtain ⟨hw', hl', -⟩ := loaded_of_mem run he'
          obtain ⟨c', r', m₂, hc, hsending, hbody⟩ := hl'.sending hw' hop'
          obtain rfl : c = c' := Option.some.inj hc
          obtain rfl : m' = m₂ := Option.some.inj (hslot'.symm.trans hsending.slot)
          obtain rfl : r = r' := Option.some.inj (hsource.symm.trans hsending.source)
          rw [hbody]
  | _ => trivial

/-- When the other end of the socket is a server that makes a reply of each message,
every answer of the proxy that is not a failure has what the server makes of the
data of the request that it answers, whatever fails on the way, and whatever the
order in which the requests are worked on. -/
theorem Serves.answers {f : List UInt8 → List UInt8} (hf : Serves f tr)
    (run : Run Step (.init data) tr w) : ∀ a ∈ w.shared.log, ∀ p, a.output = some p →
      p.status = 200 → p.data = f (data a.req) := by
  have hl := loaded_run run (hf.delivers run)
  have hloaded : Loaded data (fun r body => body = f (data r)) w.shared := hl.inv.2
  intro a ha p hp hstatus
  obtain ⟨r, code, output⟩ := a
  have hsettled : Settled r (w.shared.reply r) ⟨r, code, output⟩ :=
    (sound_run run).inv.orderly.own _ ha
  cases hsettled with
  | refused e failure early => cases hp
  | failed who what copy =>
      obtain rfl := Option.some.inj hp
      cases hstatus
  | replied body delivered =>
      obtain rfl := Option.some.inj hp
      exact hloaded.replies _ body delivered

end Nngpp.Rest
