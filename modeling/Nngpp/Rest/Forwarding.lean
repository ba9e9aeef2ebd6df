import Nngpp.Rest.Bodies

/-!
The data of a request is what is sent on, over whole runs.

`forward` is gone through once more, now with what it has in its message. The other
functions are taken as they are verified already, and so are the steps of the
environment; of these it remains to say what the other invocations see of them.
-/

namespace Nngpp.Rest

open Function Lib

variable {strict : Prop} {t : Tid} {s s' : Shared} {data : Req → List UInt8}
  {P : Req → List UInt8 → Prop}

/-- What is always true of the proxy, and `Loaded`. -/
abbrev loadedLogic (strict : Prop) (data : Req → List UInt8) (P : Req → List UInt8 → Prop) :
    Logic Tid Shared View :=
  (logic strict).and (Loaded data P)

/-! ### The handler -/

section Handler

variable {a r : Req} {j : JobPtr} {x : Job} {E : Exception → View → Prop} {v : View}

theorem spec_getData_loaded {Q : List UInt8 → View → Prop} (hQ : Q (data a) v) :
    (loadedLogic strict data P).Spec t (getData a) v Q := by
  intro s ans b s' hs hsees hf
  obtain ⟨rfl, rfl⟩ := Prod.mk.inj (Option.some.inj hf)
  exact ⟨hs, fun _ _ _ hu => hu, v, hsees, hs.2.known ▸ hQ⟩

/-- The send is started with the data of the request in the slot. -/
theorem spec_startSend {m : Message} {Q : Unit → View → Prop}
    (hawaits : Awaits r { x with aio := { x.aio with op := some (.send x.ctx) } })
    (hslot : x.aio.slot = some m) (hbody : m.body = data r) (hQ : Q () ⟨some r, none, none, none⟩) :
    (loadedLogic strict data P).Spec t (start j .send)
      ⟨some r, some (.open r none), some (j, x), none⟩ Q := by
  apply (spec_start hawaits hQ).and
  intro s ans b s' hs hsees _ h hf
  obtain ⟨hj, rfl⟩ := hsees.own rfl
  obtain ⟨r', request, serving, -, -⟩ := (hs.jobs j).of_owner hj
  obtain rfl : r = r' := Option.some.inj (hsees.serving.trans serving)
  obtain ⟨rfl, rfl⟩ := Prod.mk.inj (Option.some.inj hf)
  have hsame : Same s ((s.touch t j).needs t (s.jobs j).ctx) := Same.touch.trans (.needs _)
  rw [request]
  refine ⟨hsame.data.trans h.known, fun i c r' howner hop hrequest => ?_, hsame.reply ▸ h.replies⟩
  by_cases hi : i = j
  · subst hi
    have hrequest : some r = some r' := request.symm.trans
      ((congrFun hsame.request i).symm.trans hrequest)
    obtain rfl := Option.some.inj hrequest
    exact ⟨m, by simpa [Shared.moveStage, Shared.setJob] using hslot, hbody⟩
  · simp only [Shared.moveStage, Shared.setJob, update_of_ne hi, hsame.jobs, hsame.owner,
      hsame.request] at howner hop hrequest ⊢
    exact h.sends i c r' howner hop hrequest

theorem ok_checked_loaded {f : Action Error} {source : String} {Q : Unit → View → Prop}
    (h : (loadedLogic strict data P).Spec t f v fun e w =>
      if e = .success then Q () w else E ⟨e, source⟩ w) :
    (loadedLogic strict data P).Ok t (checked f source) Q E v := by
  apply Logic.Ok.bind
  apply Logic.Ok.act
  apply Logic.Spec.mono h
  intro e w hw
  by_cases he : e = .success
  · rw [if_pos he] at hw
    rw [if_neg (not_not.mpr he)]
    exact Logic.Ok.pure hw
  · rw [if_neg he] at hw
    rw [if_pos he]
    exact Logic.Ok.throw hw

/-- What `fillMsg` makes of a message of the right size. -/
theorem filled (body : List UInt8) :
    body ++ (List.replicate body.length (0 : UInt8)).drop body.length = body := by
  simp

/-- The message of the request has its data. -/
theorem ok_forward_loaded {c : CtxId} (hx : Prepared strict x) (hres : x.httpRes = some .new)
    (hctx : x.ctx = some ⟨c, some a⟩) :
    (loadedLogic strict data P).Ok t (forward a j) (fun _ => Done) (fun _ _ => True)
      ⟨some a, some (.open a none), some (j, x), none⟩ := by
  have hspent := hx.spent
  apply Logic.Ok.bind
  apply Logic.Ok.act
  apply spec_getData_loaded
  apply Logic.Ok.bind
  apply Logic.Ok.act
  apply Logic.Spec.and_keeps _ (spares_plain (moving_onJob fun _ => rfl))
  apply spec_assign
  any_goals rfl
  apply Logic.Ok.bind
  apply Logic.Ok.attempt
  apply ok_checked_loaded
  apply Logic.Spec.and_keeps _ (spares_plain (moving_allocMsg _))
  apply spec_allocMsg
  · exact hx.msg
  · intro m
    rw [if_pos rfl]
    apply Logic.Ok.bind
    apply Logic.Ok.act
    apply Logic.Spec.and_keeps _ (spares_plain (moving_fillMsg _))
    apply spec_fillMsg rfl
    apply Logic.Ok.bind
    apply Logic.Ok.act
    apply Logic.Spec.and_keeps _ (spares_plain moving_setMsg)
    apply spec_setMsg
    · exact hspent.empty
    apply Logic.Ok.bind
    apply Logic.Ok.act
    apply Logic.Spec.and_keeps _ (spares_plain (moving_onJob fun _ => rfl))
    apply spec_assign
    any_goals rfl
    apply Logic.Ok.act
    apply spec_startSend
    · refine ⟨rfl, hres, rfl, hx.next, ⟨c, some a⟩, rfl, hctx, .inl ⟨rfl, ?_, by simp⟩⟩
      simp [hctx]
    · rfl
    -- the body was copied from the request of this job
    · exact filled (data a)
    · exact ⟨rfl, rfl, rfl⟩
  · intro e
    rw [if_neg e.property]
    apply Logic.Ok.and _ all_restHttpFatal
    apply ok_restHttpFatal
    · rfl
    · exact hres
    · exact hx.next
    · exact hspent.congr rfl rfl
    · exact .inl rfl
    · exact ⟨rfl, rfl, rfl⟩

/-- The handler has a job, with the response and the context of the request. -/
structure Ready (strict : Prop) (a : Req) (v : View) (j : JobPtr) (x : Job) : Prop where
  view : v = ⟨some a, some (.open a none), some (j, x), none⟩
  prepared : Prepared strict x

theorem safe_restHandle_loaded (a : Req) :
    (loadedLogic strict data P).Safe t (restHandle a) (fun _ => Done)
      ⟨some a, some (.open a none), none, none⟩ := by
  apply Logic.Ok.orExit
  apply Logic.Ok.bind
  have hget : (logic strict).Ok t restGetJob
      (fun o v => ∃ j x, o = some j ∧ v = ⟨some a, some (.open a none), some (j, x), none⟩ ∧
        Idle strict x ∧ x.next = none) (fun _ _ => True)
      ⟨some a, some (.open a none), none, none⟩ :=
    ok_restGetJob (p := .open a none) fun j x hidle hnext => ⟨j, x, rfl, rfl, hidle, hnext⟩
  apply Logic.Safe.mono (hget.and all_restGetJob)
  intro r v hv
  cases r with
  | error e => trivial
  | ok o =>
      obtain ⟨j, x, rfl, rfl, hidle, hnext⟩ := hv
      apply Logic.Ok.bind
      apply Logic.Ok.attempt
      have hprepare : (logic strict).Ok t (prepare j)
          (fun _ v => ∃ c x', Ready strict a v j x' ∧ x'.httpRes = some .new ∧
            x'.ctx = some ⟨c, some a⟩)
          (fun e v => e.err ≠ .success ∧ ∃ x', Ready strict a v j x')
          ⟨some a, some (.open a none), some (j, x), none⟩ :=
        ok_prepare (a := a) hidle hnext
          (fun c x' hx hres hctx => ⟨c, x', ⟨rfl, hx⟩, hres, hctx⟩)
          (fun e he x' hx => ⟨he, x', ⟨rfl, hx⟩⟩)
      apply Logic.Safe.mono (hprepare.and all_prepare)
      intro r v hv
      cases r with
      | ok _ =>
          -- the job has a new response and a context for this request
          obtain ⟨c, x', ⟨rfl, hx⟩, hres, hctx⟩ := hv
          exact ok_forward_loaded hx hres hctx
      | error e =>
          -- nothing was sent: the job is recycled, and the request is answered at once
          obtain ⟨he, x', ⟨rfl, hx⟩⟩ := hv
          apply Logic.Ok.and _ (all_restRecycleJob.bind_code fun _ =>
            Prog.All.act_code (spares_plain (moving_finish _ _)))
          apply Logic.Ok.bind
          apply ok_restRecycleJob hx.next hx.httpAio hx.spent
          · intro p hp
            obtain rfl := Option.some.inj hp
            rfl
          apply Logic.Ok.act
          apply spec_finish (p := { Pending.open a none with recycled := some t })
          · exact .refused e.err he rfl
          · exact ⟨rfl, rfl, rfl⟩

end Handler

/-! ### What the environment leaves alone -/

section Environment

variable {a r : Req} {j : JobPtr}

/-- A request that comes in is seen by the invocation that gets it. -/
theorem frame_arrive (ha : s.stage a = .new) : Frame t s (s.arrive a t) where
  serving u hu := update_of_ne hu ..
  pending u hu r := by
    refine ⟨?_, fun _ => ⟨rfl, rfl, rfl⟩⟩
    by_cases hr : r = a
    · subst hr
      simp [Shared.arrive, ha, Ne.symm hu]
    · simp [Shared.arrive, hr]
  job _ _ _ := ⟨Iff.rfl, fun _ => rfl⟩
  list _ _ := ⟨Iff.rfl, fun _ => ⟨rfl, rfl⟩⟩

/-- The invocation of the callback gets the job and the request, which nobody had
but the operation. Before, the operation may have changed the job and the reply. -/
theorem frame_callback (howner : s.owner j = some .operation) (hrequest : s.request j = some r)
    (hstage : s.stage r = .operation j) (hjobs : ∀ i, i ≠ j → s'.jobs i = s.jobs i)
    (hreply : ∀ r', r' ≠ r → s'.reply r' = s.reply r')
    (hsame : s'.request = s.request ∧ s'.owner = s.owner ∧ s'.stage = s.stage ∧
      s'.serving = s.serving)
    (hrest : s'.output = s.output ∧ s'.recycledBy = s.recycledBy ∧ s'.lock = s.lock ∧
      s'.head = s.head ∧ s'.hook = s.hook) : Frame t s (s'.callback j t) := by
  obtain ⟨hrequests, howners, hstages, hserving⟩ := hsame
  have hcallback : s'.callback j t = { s' with
      stage := update s.stage r (.invocation t)
      owner := update s.owner j (some (.invocation t))
      serving := update s.serving t (some r) } := by
    simp only [Shared.callback, Shared.moveStage, hrequests, hrequest, howners, hstages, hserving]
  rw [hcallback]
  refine ⟨fun u hu => update_of_ne hu .., fun u hu r' => ?_, fun u hu i => ?_, fun u hu => ?_⟩
  · show (update s.stage r _ r' = _ ↔ _) ∧ _
    rw [hrest.1, hrest.2.1]
    by_cases hr : r' = r
    · subst hr
      simp [hstage, Ne.symm hu]
    · rw [update_of_ne hr, hreply r' hr]
      exact ⟨Iff.rfl, fun _ => ⟨rfl, rfl, rfl⟩⟩
  · show (update s.owner j _ i = _ ↔ _) ∧ _
    by_cases hi : i = j
    · subst hi
      simp [howner, Ne.symm hu]
    · rw [update_of_ne hi]
      exact ⟨Iff.rfl, fun _ => hjobs i hi⟩
  · obtain ⟨-, -, hlock, hhead, hhook⟩ := hrest
    show (s'.lock = _ ↔ _) ∧ _
    rw [hlock]
    exact ⟨Iff.rfl, fun _ => ⟨hhead, hhook⟩⟩

theorem frame_sendDone {e : Error} (howner : s.owner j = some .operation)
    (hrequest : s.request j = some r) (hstage : s.stage r = .operation j) :
    Frame t s ((s.sendDone j e).callback j t) := by
  unfold Shared.sendDone
  dsimp only
  split
  · apply frame_callback howner hrequest hstage
    · exact fun i hi => update_of_ne hi ..
    · exact fun _ _ => rfl
    · exact ⟨rfl, rfl, rfl, rfl⟩
    · exact ⟨rfl, rfl, rfl, rfl, rfl⟩
  · apply frame_callback howner hrequest hstage
    · exact fun i hi => update_of_ne hi ..
    · exact fun _ _ => rfl
    · exact ⟨rfl, rfl, rfl, rfl⟩
    · exact ⟨rfl, rfl, rfl, rfl, rfl⟩

theorem frame_recvDone {c : Option Context} {ans : Answer (MsgPtr × List UInt8)}
    (howner : s.owner j = some .operation) (hrequest : s.request j = some r)
    (hstage : s.stage r = .operation j) :
    Frame t s ((s.recvDone j c ans).callback j t) := by
  cases ans with
  | error e =>
      apply frame_callback howner hrequest hstage
      · exact fun i hi => update_of_ne hi ..
      · exact fun _ _ => rfl
      · exact ⟨rfl, rfl, rfl, rfl⟩
      · exact ⟨rfl, rfl, rfl, rfl, rfl⟩
  | ok p =>
      apply frame_callback howner hrequest hstage
      · exact fun i hi => update_of_ne hi ..
      · intro r' hr'
        simp [Shared.recvDone, hrequest, hr']
      · exact ⟨rfl, rfl, rfl, rfl⟩
      · exact ⟨rfl, rfl, rfl, rfl, rfl⟩

end Environment

end Nngpp.Rest
