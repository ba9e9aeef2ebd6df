import Nngpp.Rest.Passing

/-!
The proxy over whole runs.

The text of the two functions is gone through once, with the contracts of its
statements. An invocation of `rest_handle` begins with nothing but the request;
one of `rest_job_cb` begins with a job whose operation is over (`Called`). Both
end with nothing: the request is answered and the job on the list, or both are
an operation's. With what nng does to a job that waits, this makes every
interleaving sound.
-/

namespace Nngpp.Rest

open Function Lib

variable {strict : Prop} {t : Tid}

/-- An invocation that is done has nothing. -/
structure Done (v : View) : Prop where
  pending : v.pending = none
  job : v.job = none
  list : v.list = none

/-! ### The functions on a job -/

section Functions

variable {v : View} {E : Exception → View → Prop}

theorem ok_checked {f : Action Error} {source : String} {Q : Unit → View → Prop}
    (h : (logic strict).Spec t f v fun e w => if e = .success then Q () w else E ⟨e, source⟩ w) :
    (logic strict).Ok t (checked f source) Q E v := by
  apply Logic.Ok.bind
  apply Logic.Ok.act
  apply Logic.Spec.mono h
  intro e w hw
  rcases eq_or_ne e .success with he | he
  · rw [if_pos he] at hw
    rw [if_neg (not_not.mpr he)]
    exact Logic.Ok.pure hw
  · rw [if_neg he] at hw
    rw [if_pos he]
    exact Logic.Ok.throw hw

theorem ok_checked_call {source : String} {Q : Unit → View → Prop} (hQ : Q () v)
    (hE : ∀ e, e ≠ .success → E ⟨e, source⟩ v) :
    (logic strict).Ok t (checked call source) Q E v := by
  apply ok_checked
  apply spec_call
  intro e
  split
  · exact hQ
  · exact hE e ‹_›

theorem ok_made {α : Type} {f : Action (Answer α)} {source : String} {Q : α → View → Prop}
    (h : (logic strict).Spec t f v fun r w => match r with
      | .ok a => Q a w
      | .error e => E ⟨e.val, source⟩ w) :
    (logic strict).Ok t (made f source) Q E v := by
  apply Logic.Ok.bind
  apply Logic.Ok.act
  apply Logic.Spec.mono h
  rintro (e | a) w hw
  · exact Logic.Ok.throw hw
  · exact Logic.Ok.pure hw

variable {q : Option Req} {w : Option Pending} {r : Req} {j : JobPtr} {x : Job}

/-- The job is emptied and put on the list. -/
theorem ok_restRecycleJob {Q : Unit → View → Prop} (hnext : x.next = none) (haio : x.httpAio = none)
    (hspent : Spent strict x) (hw : ∀ p, w = some p → q = some p.req)
    (hQ : Q () ⟨q, w.map fun p => { p with recycled := some t }, none, none⟩) :
    (logic strict).Ok t (restRecycleJob j) Q (fun _ _ => True) ⟨q, w, some (j, x), none⟩ := by
  apply Logic.Ok.bind
  apply Logic.Ok.act
  apply spec_assign
  any_goals rfl
  apply Logic.Ok.bind
  apply Logic.Ok.act
  apply spec_dropMsg
  apply Logic.Ok.bind
  apply ok_checked
  apply spec_assignCtx
  · rw [if_pos rfl]
    apply Logic.Ok.bind
    apply Logic.Ok.act
    apply spec_lock
    intro head
    apply Logic.Ok.bind
    apply Logic.Ok.act
    apply spec_nextFromHead
    · exact hnext
    apply Logic.Ok.bind
    apply Logic.Ok.act
    apply spec_headFromJob
    · exact ⟨haio, rfl, rfl, rfl, hspent.congr rfl rfl⟩
    · exact hw
    apply Logic.Ok.act
    apply spec_unlock
    exact hQ
  · intro _ e
    rw [if_neg e.property]
    trivial

/-- The request is answered with the failure, and the job is given up. -/
theorem ok_restHttpFatal {y : Option (List UInt8)} {who : String} {what : Error}
    {Q : Unit → View → Prop} (haio : x.httpAio = some r) (hres : x.httpRes = some .new)
    (hnext : x.next = none) (hspent : Spent strict x)
    (hcopy : y = none ∨ who = "nng_http_res_copy_data") (hQ : Q () ⟨some r, none, none, none⟩) :
    (logic strict).Ok t (restHttpFatal j who what) Q (fun _ _ => True)
      ⟨some r, some (.open r y), some (j, x), none⟩ := by
  apply Logic.Ok.bind
  apply Logic.Ok.act
  apply spec_read
  rw [haio]
  apply Logic.Ok.bind
  apply Logic.Ok.act
  apply spec_assign
  any_goals rfl
  apply Logic.Ok.bind
  apply Logic.Ok.act
  apply spec_takeRes
  dsimp only
  rw [hres]
  apply Logic.Ok.bind
  apply ok_checked_call _ fun _ _ => trivial
  apply Logic.Ok.bind
  apply ok_checked_call _ fun _ _ => trivial
  apply Logic.Ok.bind
  apply ok_checked
  apply spec_setOutput (p := .open r y)
  · rw [if_pos rfl]
    apply Logic.Ok.bind
    apply Logic.Ok.act
    apply spec_finish (p := { Pending.open r y with output := _ })
    · exact .failed who what hcopy
    apply ok_restRecycleJob
    · exact hnext
    · rfl
    · exact hspent.congr rfl rfl
    · nofun
    · exact hQ
  · intro e
    rw [if_neg e.property]
    trivial

end Functions

/-! ### The callback -/

/-- A job that has a request to answer, and no operation. -/
structure Answering (r : Req) (x : Job) : Prop where
  httpAio : x.httpAio = some r
  httpRes : x.httpRes = some .new
  msg : x.msg = none
  next : x.next = none
  op : x.aio.op = none

theorem Awaits.answering {r : Req} {x : Job} {aio : Cell} (h : Awaits r x) (hop : aio.op = none) :
    Answering r { x with aio := aio } :=
  ⟨h.httpAio, h.httpRes, h.msg, h.next, hop⟩

/-- What the callback finds when it is called. -/
inductive Called (strict : Prop) (r : Req) (y : Option (List UInt8)) (x : Job) : Prop
  | sent (c : Context) (ready : Answering r x) (state : x.state = .sendReq)
      (result : x.aio.result = .success) (slot : x.aio.slot = none) (ctx : x.ctx = some c)
      (source : c.source = some r) (reply : y = none)
  | unsent (ready : Answering r x) (state : x.state = .sendReq) (result : x.aio.result ≠ .success)
      (slot : x.aio.slot ≠ none) (lenient : ¬strict) (reply : y = none)
  | received (m : MsgPtr) (body : List UInt8) (ready : Answering r x) (state : x.state = .recvRep)
      (result : x.aio.result = .success) (slot : x.aio.slot = some ⟨m, body, some r⟩)
      (reply : y = some body)
  | unreceived (ready : Answering r x) (state : x.state = .recvRep)
      (result : x.aio.result ≠ .success) (slot : x.aio.slot = none) (reply : y = none)

section Callback

variable {r : Req} {j : JobPtr} {x : Job} {y : Option (List UInt8)}

/-- The request was sent: the reply is waited for. -/
theorem ok_onSent (hcalled : Called strict r y x) (hstate : x.state = .sendReq) :
    (logic strict).Ok t (onSent j) (fun _ => Done) (fun _ _ => True)
      ⟨some r, some (.open r y), some (j, x), none⟩ := by
  apply Logic.Ok.bind
  apply Logic.Ok.act
  apply spec_read
  cases hcalled with
  | sent c ready state result slot ctx source reply =>
      rw [result, if_neg (not_not.mpr rfl), reply]
      apply Logic.Ok.bind
      apply Logic.Ok.act
      apply spec_clearSlot slot
      apply Logic.Ok.bind
      apply Logic.Ok.act
      apply spec_assign
      any_goals rfl
      apply Logic.Ok.act
      apply spec_start
      · refine ⟨ready.httpAio, ready.httpRes, ready.msg, ready.next, c, source, ctx, .inr ?_⟩
        exact ⟨rfl, by simp [ctx], slot⟩
      · exact ⟨rfl, rfl, rfl⟩
  | unsent ready state result slot lenient reply =>
      rw [if_pos result]
      apply ok_restHttpFatal ready.httpAio ready.httpRes ready.next
      · exact ⟨ready.op, iff_of_true slot ⟨state, result⟩, fun h => absurd h lenient⟩
      · exact .inl reply
      · exact ⟨rfl, rfl, rfl⟩
  | received m body ready state => rw [state] at hstate; cases hstate
  | unreceived ready state => rw [state] at hstate; cases hstate

/-- What is left in the aio of a job in the state `RECV_REP`. -/
theorem spent_of_recvRep (hstate : x.state = .recvRep) (hslot : x.aio.slot = none)
    (hop : x.aio.op = none) : Spent strict x :=
  ⟨hop, by simp [hstate, hslot], fun _ => hslot⟩

/-- The reply goes to the request, or the failure to copy it does. -/
theorem ok_onReceived (hcalled : Called strict r y x) (hstate : x.state = .recvRep) :
    (logic strict).Ok t (onReceived j) (fun _ => Done) (fun _ _ => True)
      ⟨some r, some (.open r y), some (j, x), none⟩ := by
  apply Logic.Ok.bind
  apply Logic.Ok.act
  apply spec_read
  cases hcalled with
  | sent c ready state => rw [state] at hstate; cases hstate
  | unsent ready state => rw [state] at hstate; cases hstate
  | received m body ready state result slot reply =>
      rw [result, if_neg (not_not.mpr rfl)]
      apply Logic.Ok.bind
      apply Logic.Ok.act
      apply spec_releaseMsg ready.msg
      rw [slot]
      apply Logic.Ok.bind
      apply Logic.Ok.attempt
      apply ok_checked
      apply spec_copyData
      · exact ready.httpRes
      · rfl
      · rw [if_pos rfl]
        apply Logic.Ok.bind
        apply Logic.Ok.act
        apply spec_read
        apply Logic.Ok.bind
        apply Logic.Ok.act
        apply spec_takeRes
        dsimp only
        rw [ready.httpAio]
        apply Logic.Ok.bind
        apply ok_checked
        apply spec_setOutput (p := .open r y)
        · rw [if_pos rfl]
          apply Logic.Ok.bind
          apply Logic.Ok.act
          apply spec_read
          apply Logic.Ok.bind
          apply Logic.Ok.act
          apply spec_finish (p := { Pending.open r y with output := _ })
          · exact .replied body reply
          apply Logic.Ok.bind
          apply Logic.Ok.act
          apply spec_assign
          any_goals rfl
          apply ok_restRecycleJob
          · exact ready.next
          · rfl
          · exact spent_of_recvRep state rfl ready.op
          · nofun
          · exact ⟨rfl, rfl, rfl⟩
        · intro e
          rw [if_neg e.property]
          trivial
      · intro e
        rw [if_neg e.property]
        apply ok_restHttpFatal
        · exact ready.httpAio
        · exact ready.httpRes
        · exact ready.next
        · exact spent_of_recvRep state rfl ready.op
        · exact .inr rfl
        · exact ⟨rfl, rfl, rfl⟩
  | unreceived ready state result slot reply =>
      rw [if_pos result]
      apply ok_restHttpFatal ready.httpAio ready.httpRes ready.next
      · exact spent_of_recvRep state slot ready.op
      · exact .inl reply
      · exact ⟨rfl, rfl, rfl⟩

/-- The callback leaves nothing behind. -/
theorem safe_restJobCb (hcalled : Called strict r y x) :
    (logic strict).Safe t (restJobCb j) (fun _ => Done)
      ⟨some r, some (.open r y), some (j, x), none⟩ := by
  apply Logic.Ok.orExit
  apply Logic.Ok.bind
  apply Logic.Ok.act
  apply spec_read
  cases hstate : x.state with
  | sendReq => exact ok_onSent hcalled hstate
  | recvRep => exact ok_onReceived hcalled hstate

end Callback

/-! ### The handler -/

section Handler

variable {a : Req} {j : JobPtr} {x : Job}

/-- A job is taken from the list, or made. -/
theorem ok_restGetJob {p : Pending} {Q : Option JobPtr → View → Prop}
    (hQ : ∀ j x, Idle strict x → x.next = none →
      Q (some j) ⟨some p.req, some p, some (j, x), none⟩) :
    (logic strict).Ok t restGetJob Q (fun _ _ => True) ⟨some p.req, some p, none, none⟩ := by
  apply Logic.Ok.bind
  apply Logic.Ok.act
  apply spec_lock
  intro head
  apply Logic.Ok.bind
  apply Logic.Ok.act
  apply spec_popHead
  · apply Logic.Ok.bind
    apply Logic.Ok.act
    apply spec_unlock
    apply Logic.Ok.bind
    apply ok_made
    apply spec_makeJob
    · intro j
      apply Logic.Ok.pure
      exact hQ j {} ⟨rfl, rfl, rfl, rfl, ⟨rfl, by simp, fun _ => rfl⟩⟩ rfl
    · exact fun _ => trivial
  · intro j x hidle
    apply Logic.Ok.bind
    apply Logic.Ok.act
    apply spec_headFromNext
    apply Logic.Ok.bind
    apply Logic.Ok.act
    apply spec_unlock
    apply Logic.Ok.pure
    have hspent := hidle.spent
    exact hQ j _ ⟨hidle.httpAio, hidle.httpRes, hidle.msg, hidle.ctx,
      hspent.congr rfl rfl⟩ rfl

/-- A job which is idle but for its response and its context. -/
structure Prepared (strict : Prop) (x : Job) : Prop where
  httpAio : x.httpAio = none
  msg : x.msg = none
  next : x.next = none
  spent : Spent strict x

/-- The first try block: what it throws is a failure, and leaves a job that can be
recycled. -/
theorem ok_prepare {p : Option Pending} (hidle : Idle strict x) (hnext : x.next = none)
    {Q : Unit → View → Prop} {E : Exception → View → Prop}
    (hQ : ∀ c x', Prepared strict x' → x'.httpRes = some .new → x'.ctx = some ⟨c, some a⟩ →
      Q () ⟨some a, p, some (j, x'), none⟩)
    (hE : ∀ e : Exception, e.err ≠ .success → ∀ x', Prepared strict x' →
      E e ⟨some a, p, some (j, x'), none⟩) :
    (logic strict).Ok t (prepare j) Q E ⟨some a, p, some (j, x), none⟩ := by
  have hspent := hidle.spent
  apply Logic.Ok.bind
  apply Logic.Ok.bind
  apply ok_checked_call
  · apply Logic.Ok.pure
    apply Logic.Ok.bind
    apply Logic.Ok.act
    apply spec_assign
    any_goals rfl
    apply Logic.Ok.bind
    apply ok_made
    apply spec_openCtx
    · intro c
      apply ok_checked
      apply spec_assignCtx
      · rw [if_pos rfl]
        exact hQ c _ ⟨hidle.httpAio, hidle.msg, hnext, hspent.congr rfl rfl⟩ rfl rfl
      · exact fun hctx => absurd hidle.ctx hctx
    · intro e
      exact hE _ e.property _ ⟨hidle.httpAio, hidle.msg, hnext, hspent.congr rfl rfl⟩
  · intro e he
    exact hE _ he x ⟨hidle.httpAio, hidle.msg, hnext, hspent⟩

/-- The request is sent on, or answered with a failure. -/
theorem ok_forward {c : CtxId} (hx : Prepared strict x) (hres : x.httpRes = some .new)
    (hctx : x.ctx = some ⟨c, some a⟩) :
    (logic strict).Ok t (forward a j) (fun _ => Done) (fun _ _ => True)
      ⟨some a, some (.open a none), some (j, x), none⟩ := by
  have hspent := hx.spent
  apply Logic.Ok.bind
  apply Logic.Ok.act
  apply spec_getData
  intro data
  apply Logic.Ok.bind
  apply Logic.Ok.act
  apply spec_assign
  any_goals rfl
  apply Logic.Ok.bind
  apply Logic.Ok.attempt
  apply ok_checked
  apply spec_allocMsg
  · exact hx.msg
  · intro m
    rw [if_pos rfl]
    apply Logic.Ok.bind
    apply Logic.Ok.act
    apply spec_fillMsg rfl
    apply Logic.Ok.bind
    apply Logic.Ok.act
    apply spec_setMsg
    · exact hspent.empty
    apply Logic.Ok.bind
    apply Logic.Ok.act
    apply spec_assign
    any_goals rfl
    apply Logic.Ok.act
    apply spec_start
    · refine ⟨rfl, hres, rfl, hx.next, ⟨c, some a⟩, rfl, hctx, .inl ⟨rfl, ?_, by simp⟩⟩
      simp [hctx]
    · exact ⟨rfl, rfl, rfl⟩
  · intro e
    rw [if_neg e.property]
    apply ok_restHttpFatal
    · rfl
    · exact hres
    · exact hx.next
    · exact hspent.congr rfl rfl
    · exact .inl rfl
    · exact ⟨rfl, rfl, rfl⟩

theorem safe_restHandle (a : Req) :
    (logic strict).Safe t (restHandle a) (fun _ => Done)
      ⟨some a, some (.open a none), none, none⟩ := by
  apply Logic.Ok.orExit
  apply Logic.Ok.bind
  apply ok_restGetJob (p := .open a none)
  intro j x hidle hnext
  apply Logic.Ok.bind
  apply Logic.Ok.attempt
  apply ok_prepare (a := a) hidle hnext
  · intro c x' hx hres hctx
    exact ok_forward hx hres hctx
  · intro e he x' hx
    apply Logic.Ok.bind
    apply ok_restRecycleJob hx.next hx.httpAio hx.spent
    · rintro _ ⟨⟩
      rfl
    apply Logic.Ok.act
    apply spec_finish (p := { Pending.open a none with recycled := some t })
    · exact .refused e.err he rfl
    · exact ⟨rfl, rfl, rfl⟩

end Handler

/-! ### Steps -/

/-- Every invocation knows enough, and one that has not started, or has returned,
has nothing. -/
abbrev Sound (strict : Prop) (w : World) : Prop := Pool.Sound (logic strict) Done w

section Steps

variable {w w' : World}

theorem Sound.idle (hw : Sound strict w) (ht : w.code t = none) :
    (∀ r, w.shared.stage r ≠ .invocation t) ∧ (∀ j, w.shared.owner j ≠ some (.invocation t)) ∧
      w.shared.lock ≠ some t := by
  obtain ⟨v, hsees, hdone⟩ := hw.absent t ht
  have hsees : Sees t w.shared v := hsees
  exact ⟨hsees.settled hdone.pending, hsees.jobless hdone.job, hsees.unlocked hdone.list⟩

/-- A request comes in. -/
theorem Sound.request (hw : Sound strict w) {a : Req} (ht : w.code t = none)
    (ha : w.shared.stage a = .new) :
    Sound strict (w.spawn t (restHandle a) (w.shared.arrive a t)) := by
  have hs : Inv strict w.shared := hw.inv
  obtain ⟨hsettled, hjobless, hunlocked⟩ := hw.idle ht
  have hreply := (hs.requests a).of_new ha
  obtain ⟨hlog, houtput, hrecycled⟩ := (hs.requests a).untouched (by simp [ha]) (by simp [ha])
  apply Pool.Sound.spawn hw (v := ⟨some a, some (.open a none), none, none⟩)
  · refine ⟨hs.custody, hs.kept, hs.noFault, ⟨hs.listed.chain, hs.listed.hooked⟩, ?_, ?_,
      hs.exclusive⟩
    · intro j
      refine (hs.jobs j).congr rfl rfl rfl (fun u hu => ?_) fun r hr => ⟨?_, rfl⟩
      · have hne : u ≠ t := by
          rintro rfl
          exact hjobless j hu
        exact update_of_ne hne ..
      · have hne : r ≠ a := by
          rintro rfl
          exact (hs.jobs j).not_new hr ha
        exact update_of_ne hne ..
    · intro r
      rcases eq_or_ne r a with rfl | hne
      · refine .invocation t (update_self ..) hlog fun u hu => ?_
        have hu : w.shared.recycledBy r = some u := hu
        rw [hrecycled] at hu
        cases hu
      · exact (hs.requests r).congr (update_of_ne hne ..) rfl rfl rfl rfl
  · apply Frame.frames
    refine ⟨fun u hu => update_of_ne hu .., fun u hu r => ⟨?_, fun _ => ⟨rfl, rfl, rfl⟩⟩,
      fun _ _ _ => ⟨Iff.rfl, fun _ => rfl⟩, fun _ _ => ⟨Iff.rfl, fun _ => ⟨rfl, rfl⟩⟩⟩
    rcases eq_or_ne r a with rfl | hne
    · simp [Shared.arrive, ha, Ne.symm hu]
    · simp [Shared.arrive, hne]
  · refine ⟨by simp [Shared.arrive], ?_, sees_jobless hjobless, ?_⟩
    · refine sees_pending (p := .open a none) (update_self ..) houtput hreply hrecycled
        fun r hr => ?_
      by_contra hne
      have hne : r ≠ a := hne
      exact hsettled r (by simpa [Shared.arrive, hne] using hr)
    · exact fun p => ⟨nofun, fun hp => absurd hp.1 hunlocked⟩
  · exact safe_restHandle a

/-- The operation on a job is over, and an invocation of the callback has it. -/
def Shared.handed (s : Shared) (j : JobPtr) (r : Req) (t : Tid) (x : Job)
    (heap : MsgPtr → Option Unit) (taken : MsgPtr → Option JobPtr) (y : Option (List UInt8)) :
    Shared :=
  { s with
    jobs := update s.jobs j x
    heap := heap
    taken := taken
    reply := update s.reply r y
    owner := update s.owner j (some (.invocation t))
    stage := update s.stage r (.invocation t)
    serving := update s.serving t (some r) }

theorem Sound.callback (hw : Sound strict w) {j : JobPtr} {r : Req} {x : Job}
    {heap : MsgPtr → Option Unit} {taken : MsgPtr → Option JobPtr} {y : Option (List UInt8)}
    (ht : w.code t = none) (howner : w.shared.owner j = some .operation)
    (hrequest : w.shared.request j = some r) (hstage : w.shared.stage r = .operation j)
    (hnext : x.next = (w.shared.jobs j).next) (hop : x.aio.op = none)
    (hcustody : Entrusted (held (w.shared.setJob j x)) taken w.shared.lost heap)
    (hcalled : Called strict r y x) :
    Sound strict (w.spawn t (restJobCb j) (w.shared.handed j r t x heap taken y)) := by
  have hs : Inv strict w.shared := hw.inv
  obtain ⟨hsettled, hjobless, hunlocked⟩ := hw.idle ht
  obtain ⟨hlog, houtput, hrecycled⟩ :=
    (hs.requests r).untouched (by simp [hstage]) (by simp [hstage])
  apply Pool.Sound.spawn hw (v := ⟨some r, some (.open r y), some (j, x), none⟩)
  · refine ⟨hcustody, hs.kept, hs.noFault, ?_, ?_, ?_, hs.exclusive⟩
    · refine hs.listed.congr (fun i => ?_) (fun i => ?_) rfl rfl rfl fun i u _ _ hi => ?_
      · rcases eq_or_ne i j with rfl | hij
        · simpa [Shared.handed] using hnext
        · simp [Shared.handed, hij]
      · rcases eq_or_ne i j with rfl | hij
        · simp [Shared.handed, howner]
        · simp [Shared.handed, hij]
      · rcases eq_or_ne i j with rfl | hij
        · simp [howner] at hi
        · simpa [Shared.handed, hij] using hi
    · intro i
      rcases eq_or_ne i j with rfl | hij
      · exact .invocation t r (update_self ..) hrequest (update_self ..) (.inl (update_self ..))
          (by simpa [Shared.handed] using hop)
      · refine (hs.jobs i).congr (update_of_ne hij ..) (update_of_ne hij ..) rfl (fun u hu => ?_)
          fun r' hr' => ?_
        · have hne : u ≠ t := by
            rintro rfl
            exact hjobless i hu
          exact update_of_ne hne ..
        · have hne : r' ≠ r := by
            rintro rfl
            exact hij (hs.exclusive hr' hrequest)
          exact ⟨update_of_ne hne .., update_of_ne hne ..⟩
    · intro r'
      rcases eq_or_ne r' r with rfl | hne
      · refine .invocation t (update_self ..) hlog fun u hu => ?_
        have hu : w.shared.recycledBy r' = some u := hu
        rw [hrecycled] at hu
        cases hu
      · exact (hs.requests r').congr (update_of_ne hne ..) rfl rfl (update_of_ne hne ..) rfl
  · apply Frame.frames
    refine ⟨fun u hu => update_of_ne hu .., fun u hu r' => ⟨?_, fun hr' => ⟨rfl, ?_, rfl⟩⟩,
      fun u hu i => ⟨?_, fun hi => ?_⟩, fun _ _ => ⟨Iff.rfl, fun _ => ⟨rfl, rfl⟩⟩⟩
    · rcases eq_or_ne r' r with rfl | hne
      · simp [Shared.handed, hstage, Ne.symm hu]
      · simp [Shared.handed, hne]
    · have hne : r' ≠ r := by
        rintro rfl
        rw [hstage] at hr'
        cases hr'
      exact update_of_ne hne ..
    · rcases eq_or_ne i j with rfl | hij
      · simp [Shared.handed, howner, Ne.symm hu]
      · simp [Shared.handed, hij]
    · have hij : i ≠ j := by
        rintro rfl
        rw [howner] at hi
        cases hi
      exact update_of_ne hij ..
  · refine ⟨by simp [Shared.handed], ?_, ?_, fun p => ⟨nofun, fun hp => absurd hp.1 hunlocked⟩⟩
    · refine sees_pending (p := .open r y) (update_self ..) houtput (update_self ..) hrecycled
        fun r' hr' => ?_
      by_contra hne
      have hne : r' ≠ r := hne
      exact hsettled r' (by simpa [Shared.handed, hne] using hr')
    · apply sees_job
      · exact update_self ..
      · exact update_self ..
      · intro i hi
        by_contra hij
        exact hjobless i (by simpa [Shared.handed, hij] using hi)
  · exact safe_restJobCb hcalled

/-- A send ends well, and nng has the message, or not, and the message stays. -/
theorem Sound.sendDone (hw : Sound strict w) {j : JobPtr} {c : Option Context} {e : Error}
    (hop : (w.shared.jobs j).aio.op = some (.send c)) (ht : w.code t = none)
    (hok : strict → e = .success) :
    Sound strict (w.spawn t (restJobCb j) ((w.shared.sendDone j e).callback j t)) := by
  have hs : Inv strict w.shared := hw.inv
  obtain ⟨howner, r, hrequest, hstage, hreply, hawaits⟩ := (hs.jobs j).of_op (by simp [hop])
  obtain ⟨ctx, hsource, hctx, ⟨hstate, -, hslot⟩ | ⟨-, hrecv, -⟩⟩ := hawaits.started
  · have hsame : w.shared.reply = update w.shared.reply r none := by rw [← hreply, update_eq_self]
    rcases eq_or_ne e .success with rfl | he
    · obtain ⟨m, hm⟩ := Option.ne_none_iff_exists'.mp hslot
      have hend : (w.shared.sendDone j .success).callback j t =
          w.shared.handed j r t { w.shared.jobs j with aio := ⟨none, .success, none⟩ } w.shared.heap
            (update w.shared.taken m.ptr (some j)) none := by
        simp [Shared.sendDone, Shared.callback, Shared.handed, Shared.moveStage, Shared.setJob, hm,
          hrequest, ← hsame]
      rw [hend]
      apply hw.callback ht howner hrequest hstage
      · rfl
      · rfl
      · rw [held_setJob_slot (by rfl)]
        exact hs.custody.handOver (by simp [held, hm]) j
      · exact .sent ctx (hawaits.answering rfl) hstate rfl
          rfl hctx hsource rfl
    · have hend : (w.shared.sendDone j e).callback j t =
          w.shared.handed j r t { w.shared.jobs j with
            aio := { (w.shared.jobs j).aio with result := e, op := none } } w.shared.heap
            w.shared.taken none := by
        simp [Shared.sendDone, he, Shared.callback, Shared.handed, Shared.moveStage, Shared.setJob,
          hrequest, ← hsame]
      rw [hend]
      apply hw.callback ht howner hrequest hstage
      · rfl
      · rfl
      · exact hs.custody_setJob rfl rfl
      · exact .unsent (hawaits.answering rfl) hstate he
          hslot (fun h => he (hok h)) rfl
  · rw [hop] at hrecv
    cases hrecv

/-- A receive ends, and the reply is in the slot, if there is one. -/
theorem Sound.recvDone (hw : Sound strict w) {j : JobPtr} {c : Option Context}
    {ans : Answer (MsgPtr × List UInt8)} (hop : (w.shared.jobs j).aio.op = some (.recv c))
    (hdelivers : w.shared.delivers ans = true) (ht : w.code t = none) :
    Sound strict (w.spawn t (restJobCb j) ((w.shared.recvDone j c ans).callback j t)) := by
  have hs : Inv strict w.shared := hw.inv
  obtain ⟨howner, r, hrequest, hstage, hreply, hawaits⟩ := (hs.jobs j).of_op (by simp [hop])
  obtain ⟨ctx, hsource, hctx, ⟨-, hsend, -⟩ | ⟨hstate, hrecv, hslot⟩⟩ := hawaits.started
  · rw [hop] at hsend
    cases hsend
  · obtain rfl : c = some ctx := by simpa [hop] using hrecv
    cases ans with
    | error e =>
        have hsame : w.shared.reply = update w.shared.reply r none := by
          rw [← hreply, update_eq_self]
        have hend : (w.shared.recvDone j (some ctx) (.error e)).callback j t =
            w.shared.handed j r t { w.shared.jobs j with
              aio := { (w.shared.jobs j).aio with result := e.val, op := none } } w.shared.heap
              w.shared.taken none := by
          simp [Shared.recvDone, Shared.callback, Shared.handed, Shared.moveStage, Shared.setJob,
            hrequest, ← hsame]
        rw [hend]
        apply hw.callback ht howner hrequest hstage
        · rfl
        · rfl
        · exact hs.custody_setJob rfl rfl
        · exact .unreceived (hawaits.answering rfl) hstate
            e.property hslot rfl
    | ok p =>
        obtain ⟨m, body⟩ := p
        have hend : (w.shared.recvDone j (some ctx) (.ok (m, body))).callback j t =
            w.shared.handed j r t { w.shared.jobs j with
              aio := ⟨some ⟨m, body, some r⟩, .success, none⟩ } (update w.shared.heap m (some ()))
              (update w.shared.taken m none) (some body) := by
          simp [Shared.recvDone, Shared.callback, Shared.handed, Shared.moveStage, Shared.setJob,
            hrequest, hslot, hsource]
        have hfrom : w.shared.heap m = none ∨ w.shared.taken m ≠ none := by
          simpa [Shared.delivers] using hdelivers
        rw [hend]
        apply hw.callback ht howner hrequest hstage
        · rfl
        · rfl
        · rw [held_setJob_slot (by rfl)]
          exact hs.custody.deliver (by simp [held, hslot]) hfrom ()
        · exact .received m body (hawaits.answering rfl)
            hstate rfl rfl rfl

/-- nng is done with a message that it has taken. -/
theorem Sound.dispose (hw : Sound strict w) {m : MsgPtr} (hm : w.shared.taken m ≠ none) :
    Sound strict { w with shared := { w.shared with
      heap := update w.shared.heap m none
      taken := update w.shared.taken m none } } := by
  have hs : Inv strict w.shared := hw.inv
  apply Pool.Sound.outside hw
  · refine ⟨hs.custody.dispose hm, hs.kept, hs.noFault, ⟨hs.listed.chain, hs.listed.hooked⟩, ?_, ?_,
      hs.exclusive⟩
    · exact fun j => (hs.jobs j).congr rfl rfl rfl (fun _ _ => rfl) fun _ _ => ⟨rfl, rfl⟩
    · exact fun r => (hs.requests r).congr rfl rfl rfl rfl rfl
  · exact fun u v hsees => ⟨hsees.serving, hsees.pending, hsees.job, hsees.list⟩

/-- Not the end of a send that has failed. -/
def Label.Sends : Label → Prop
  | .sendDone _ e _ => e = .success
  | _ => True

theorem sound_step (hw : Sound strict w) {l : Label} (hstep : Step w l w')
    (hok : strict → l.Sends) : Sound strict w' := by
  cases hstep.stepped with
  | run hrun => exact hw.run hrun
  | request absent new => exact hw.request absent new
  | sendDone op absent => exact hw.sendDone op absent hok
  | recvDone op absent delivers => exact hw.recvDone op delivers absent
  | dispose taken => exact hw.dispose taken

theorem sound_init (strict : Prop) (data : Req → List UInt8) : Sound strict (.init data) where
  inv := inv_init strict data
  threads _ _ := nofun
  absent _ _ := by
    refine ⟨⟨none, none, none, none⟩, ⟨rfl, ?_, ?_, ?_⟩, rfl, rfl, rfl⟩
    · exact sees_settled fun _ => nofun
    · exact sees_jobless fun _ => nofun
    · exact fun p => ⟨nofun, fun hp => nomatch hp.1⟩

variable {data : Req → List UInt8} {tr : List (Transition World Label)}

/-- Every interleaving is sound, and strictly so when no send fails. -/
theorem sound_run (run : Run Step (.init data) tr w) : Sound False w :=
  run.invariant (sound_init False data) fun _ _ _ hw hstep => sound_step hw hstep False.elim

theorem sound_run_of_sends (run : Run Step (.init data) tr w) (hok : ∀ e ∈ tr, e.label.Sends) :
    Sound True w :=
  run.guarded (sound_init True data) (fun _ _ _ hw hstep hl => sound_step hw hstep fun _ => hl) hok

end Steps

end Nngpp.Rest
