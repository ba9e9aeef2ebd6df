import Nngpp.Rest.Model
import Nngpp.Lib.Run

/-!
The functions of the REST proxy, and its runs.

A step is one statement of one invocation, an HTTP request that comes in, or the
completion of an operation, which starts the callback. The callback may run at
once, while the invocation that started the operation has not returned yet. What
a throw destroys on its way out to `exit(1)` is left out.
-/

namespace Nngpp.Rest

open Function Lib

/-- `if( r != 0 ) throw exception(r,source);` around a call. -/
def checked (f : Action Error) (source : String) : Code Unit := do
  let r ← Code.act f
  if r ≠ .success then throw ⟨r, source⟩

/-- A call that makes something. -/
def made {α : Type} (f : Action (Answer α)) (source : String) : Code α := do
  match (← Code.act f) with
  | .ok a => return a
  | .error e => throw ⟨e.val, source⟩

/-- `nng::http::make_res()`. -/
def makeRes : Code Response := do
  checked call "nng_http_res_alloc"
  return Response.new

/-- `static void rest_recycle_job(std::unique_ptr<rest_job>&& job)`. -/
def restRecycleJob (job : JobPtr) : Code Unit := do
  Code.act (assign job fun x => { x with httpRes := none })
  Code.act (dropMsg job)
  checked (assignCtx job none) "nng_ctx_close"
  Code.act lock
  Code.act (nextFromHead job)
  Code.act (headFromJob job)
  Code.act unlock

/-- `static std::unique_ptr<rest_job> rest_get_job(void)`. `make_unique` throws
rather than return null, so the result is never null. -/
def restGetJob : Code (Option JobPtr) := do
  Code.act lock
  match (← Code.act popHead) with
  | some job =>
      Code.act (headFromNext job)
      Code.act unlock
      return some job
  | none =>
      Code.act unlock
      let job ← made makeJob "nng_aio_alloc"
      return some job

/-- `static void rest_http_fatal(job, who, what)`. -/
def restHttpFatal (job : JobPtr) (who : String) (what : Error) : Code Unit := do
  let aio ← Code.act (read job Job.httpAio)
  Code.act (assign job fun x => { x with httpAio := none })
  let res ← Code.act (takeRes job)
  checked call "nng_http_res_set_status"
  let res := res.map fun p => { p with status := 500 }
  checked call "nng_http_res_set_reason"
  let res := res.map fun p => { p with reason := some (who, what) }
  checked (setOutput aio res) "nng_aio_set_output"
  Code.act (finish aio .success)
  restRecycleJob job

/-- `rest_job_cb`, in the state `SEND_REQ`. -/
def onSent (job : JobPtr) : Code Unit := do
  let result ← Code.act (read job fun x => x.aio.result)
  if result ≠ .success then
    restHttpFatal job "send REQ failed" result
  else
    -- the message was sent, so now wait for the reply
    Code.act (clearSlot job)
    Code.act (assign job fun x => { x with state := .recvRep })
    Code.act (start job .recv)

/-- `rest_job_cb`, in the state `RECV_REP`. -/
def onReceived (job : JobPtr) : Code Unit := do
  let result ← Code.act (read job fun x => x.aio.result)
  if result ≠ .success then
    restHttpFatal job "recv reply failed" result
  else
    Code.act (releaseMsg job)
    match (← Code.attempt (checked (copyData job) "nng_http_res_copy_data")) with
    | .error e => restHttpFatal job e.who e.getError
    | .ok _ => do
        let aio ← Code.act (read job Job.httpAio)
        let res ← Code.act (takeRes job)
        checked (setOutput aio res) "nng_aio_set_output"
        let aio ← Code.act (read job Job.httpAio)
        Code.act (finish aio .success)
        Code.act (assign job fun x => { x with httpAio := none })
        restRecycleJob job

/-- `static void rest_job_cb(void* arg)`. -/
def restJobCb (arg : JobPtr) : Prog Tid Reply Shared Unit :=
  Code.orExit do
    match (← Code.act (read arg Job.state)) with
    | .sendReq => onSent arg
    | .recvRep => onReceived arg

/-- The first try block of `rest_handle`. -/
def prepare (job : JobPtr) : Code Unit := do
  let res ← makeRes
  Code.act (assign job fun x => { x with httpRes := some res })
  let c ← made openCtx "nng_ctx_open"
  checked (assignCtx job (some c)) "nng_ctx_close"

/-- The rest of `rest_handle`, for a job that is ready. -/
def forward (a : Req) (job : JobPtr) : Code Unit := do
  let data ← Code.act (getData a)
  Code.act (assign job fun x => { x with httpAio := some a })
  match (← Code.attempt (checked (allocMsg job data.length) "nng_msg_alloc")) with
  | .error e => restHttpFatal job e.who e.getError
  | .ok _ => do
      Code.act (fillMsg job data)
      Code.act (setMsg job)
      Code.act (assign job fun x => { x with state := .sendReq })
      Code.act (start job .send)

/-- `void rest_handle(nng_aio* a)`. -/
def restHandle (a : Req) : Prog Tid Reply Shared Unit :=
  Code.orExit do
    match (← restGetJob) with
    | none => Code.act (finish (some a) .nomem)
    | some job =>
        match (← Code.attempt (prepare job)) with
        | .error e => do
            restRecycleJob job
            Code.act (finish (some a) e.getError)
        | .ok _ => forward a job

/-! ### Runs -/

abbrev World := Pool Tid Reply Shared

/-- A statement of an invocation, with nng's answer; a request for the handler;
the completions, with the invocation of the callback that each starts; and the
end of a message that nng has taken. -/
inductive Label
  | run (t : Tid) (ans : Reply)
  | request (a : Req) (t : Tid)
  | sendDone (j : JobPtr) (e : Error) (t : Tid)
  | recvDone (j : JobPtr) (ans : Answer (MsgPtr × List UInt8)) (t : Tid)
  | dispose (m : MsgPtr)

namespace Shared

/-- The HTTP server calls the handler. -/
def arrive (s : Shared) (a : Req) (t : Tid) : Shared :=
  { s with stage := update s.stage a (.invocation t), serving := update s.serving t (some a) }

/-- The callback gets the job, and the request that the operation was for. -/
def callback (s : Shared) (j : JobPtr) (t : Tid) : Shared :=
  { s.moveStage (s.request j) (.invocation t) with
    owner := update s.owner j (some (.invocation t))
    serving := update s.serving t (s.request j) }

/-- A send ends: nng takes the message when it succeeds. -/
def sendDone (s : Shared) (j : JobPtr) (e : Error) : Shared :=
  let x := s.jobs j
  if e = .success then
    { s.setJob j { x with aio := ⟨none, e, none⟩ } with
      taken := match x.aio.slot with
        | none => s.taken
        | some m => update s.taken m.ptr (some j) }
  else s.setJob j { x with aio := { x.aio with result := e, op := none } }

/-- A receive on a context ends: nng puts the reply into the slot when it
succeeds. -/
def recvDone (s : Shared) (j : JobPtr) (c : Option Context)
    (ans : Answer (MsgPtr × List UInt8)) : Shared :=
  let x := s.jobs j
  match ans with
  | .ok (m, body) =>
      { s.setJob j { x with aio := ⟨some ⟨m, body, c.bind Context.source⟩, .success, none⟩ } with
        heap := update s.heap m (some ())
        taken := update s.taken m none
        lost := lose s.lost (x.aio.slot.map Message.ptr)
        reply := match s.request j with
          | none => s.reply
          | some r => update s.reply r (some body) }
  | .error e => s.setJob j { x with aio := { x.aio with result := e.val, op := none } }

/-- A message that nng delivers is fresh or its own. -/
def delivers (s : Shared) : Answer (MsgPtr × List UInt8) → Bool
  | .ok (m, _) => s.heap m = none ∨ s.taken m ≠ none
  | .error _ => true

end Shared

/-- An invocation has its own name, and a request comes once; nng completes the
operations that were started. -/
def exec (w : World) (l : Label) : Option World :=
  if w.exited then none
  else match l with
    | .run t ans => w.run t ans
    | .request a t =>
        if (w.code t).isNone ∧ w.shared.stage a = .new then
          some (w.spawn t (restHandle a) (w.shared.arrive a t))
        else none
    | .sendDone j e t =>
        match (w.shared.jobs j).aio.op, w.code t with
        | some (.send _), none =>
            some (w.spawn t (restJobCb j) ((w.shared.sendDone j e).callback j t))
        | _, _ => none
    | .recvDone j ans t =>
        match (w.shared.jobs j).aio.op, w.code t with
        | some (.recv c), none =>
            if w.shared.delivers ans then
              some (w.spawn t (restJobCb j) ((w.shared.recvDone j c ans).callback j t))
            else none
        | _, _ => none
    | .dispose m =>
        if w.shared.taken m ≠ none then
          some { w with shared := { w.shared with
            heap := update w.shared.heap m none
            taken := update w.shared.taken m none } }
        else none

def Step (w : World) (l : Label) (w' : World) : Prop := exec w l = some w'

/-- What the world is after a step with each of the labels, and what nng or the HTTP server
has seen to before. -/
inductive Stepped (w : World) : Label → World → Prop
  | run {t : Tid} {ans : Reply} {w' : World} (hrun : w.run t ans = some w') :
      Stepped w (.run t ans) w'
  | request {a : Req} {t : Tid} (absent : w.code t = none) (new : w.shared.stage a = .new) :
      Stepped w (.request a t) (w.spawn t (restHandle a) (w.shared.arrive a t))
  | sendDone {j : JobPtr} {e : Error} {t : Tid} {c : Option Context}
      (op : (w.shared.jobs j).aio.op = some (.send c)) (absent : w.code t = none) :
      Stepped w (.sendDone j e t)
        (w.spawn t (restJobCb j) ((w.shared.sendDone j e).callback j t))
  | recvDone {j : JobPtr} {ans : Answer (MsgPtr × List UInt8)} {t : Tid} {c : Option Context}
      (op : (w.shared.jobs j).aio.op = some (.recv c)) (absent : w.code t = none)
      (delivers : w.shared.delivers ans = true) :
      Stepped w (.recvDone j ans t)
        (w.spawn t (restJobCb j) ((w.shared.recvDone j c ans).callback j t))
  | dispose {m : MsgPtr} (taken : w.shared.taken m ≠ none) :
      Stepped w (.dispose m) { w with shared := { w.shared with
        heap := update w.shared.heap m none
        taken := update w.shared.taken m none } }

theorem Step.running {w w' : World} {l : Label} (h : Step w l w') : w.exited = false := by
  unfold Step exec at h
  split at h
  · cases h
  · rename_i hexited
    simpa using hexited

theorem Step.stepped {w w' : World} {l : Label} (h : Step w l w') : Stepped w l w' := by
  have hrunning : ¬ w.exited = true := by simp [h.running]
  unfold Step exec at h
  rw [if_neg hrunning] at h
  cases l with
  | run t ans => exact .run h
  | request a t =>
      obtain ⟨⟨habsent, hnew⟩, heq⟩ := Option.ite_none_right_eq_some.mp h
      obtain rfl := Option.some.inj heq
      exact .request (Option.isNone_iff_eq_none.mp habsent) hnew
  | sendDone j e t =>
      simp only at h
      split at h
      · rename_i c hop habsent
        obtain rfl := Option.some.inj h
        exact .sendDone hop habsent
      · cases h
  | recvDone j ans t =>
      simp only at h
      split at h
      · rename_i c hop habsent
        obtain ⟨hdelivers, heq⟩ := Option.ite_none_right_eq_some.mp h
        obtain rfl := Option.some.inj heq
        exact .recvDone hop habsent hdelivers
      · cases h
  | dispose m =>
      obtain ⟨htaken, heq⟩ := Option.ite_none_right_eq_some.mp h
      obtain rfl := Option.some.inj heq
      exact .dispose htaken

/-- The server has just been started. -/
def Shared.init (data : Req → List UInt8) : Shared where
  jobs _ := {}
  lock := none
  head := none
  heap _ := none
  taken _ := none
  data := data
  output _ := none
  reply _ := none
  log := []
  owner _ := none
  request _ := none
  stage _ := .new
  serving _ := none
  recycledBy _ := none
  hook := none
  lost _ := false
  faults := []

def World.init (data : Req → List UInt8) : World where
  shared := .init data
  code _ := none
  exited := false

end Nngpp.Rest
