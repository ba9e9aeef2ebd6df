import Nngpp.Core
import Nngpp.Lib.Custody
import Nngpp.Lib.Prog

/-!
The state of the REST proxy of `demo/rest/server.cpp`, and its statements.

The jobs live at addresses and point to each other; each has an aio, with the
slot for a message and the operation that was started on it. A message, a context
and a response have their contents with them, since each is only used through the
one object that holds it: that no message is held twice is a theorem here, not an
assumption.

A statement of the program is an action, which takes effect at once. Some of
what the actions record is not in the program. `owner` says who may touch a job:
the invocation that took it, until it starts an operation or puts the job on the
freelist. `request` is the request for which it was taken. `stage` says which
invocation, or which operation, has a request to answer. `source` says for whose
request a context was opened, and so whose reply a message or a response carries;
`reply` is what nng delivered for a request. Everything that must not happen is
recorded as a fault.
-/

namespace Nngpp.Rest

open Function Lib

abbrev JobPtr := ℕ

abbrev MsgPtr := ℕ

abbrev CtxId := ℕ

/-- A request, by the `nng_aio` that the HTTP server passes to the handler. -/
abbrev Req := ℕ

/-- An invocation of `rest_handle` or of `rest_job_cb`. -/
abbrev Tid := ℕ

structure Message where
  ptr : MsgPtr
  body : List UInt8
  source : Option Req
  deriving DecidableEq, Repr

structure Context where
  id : CtxId
  source : Option Req
  deriving DecidableEq, Repr

/-- A response; the reason is the two arguments of `snprintf(buf,"%s: %s",…)`. -/
structure Response where
  status : ℕ
  reason : Option (String × Error)
  data : List UInt8
  source : Option Req
  deriving DecidableEq, Repr

/-- What `nng_http_res_alloc` makes. -/
def Response.new : Response := ⟨200, none, [], none⟩

/-- `enum job_state`. -/
inductive JobState
  | sendReq | recvRep
  deriving DecidableEq, Repr

inductive Operation
  | send (c : Option Context)
  | recv (c : Option Context)
  deriving DecidableEq, Repr

/-- An `nng_aio`. -/
structure Cell where
  slot : Option Message := none
  result : Error := .success
  op : Option Operation := none
  deriving DecidableEq, Repr

/-- `struct rest_job`. -/
structure Job where
  httpAio : Option Req := none
  httpRes : Option Response := none
  state : JobState := .sendReq
  msg : Option Message := none
  aio : Cell := {}
  ctx : Option Context := none
  next : Option JobPtr := none
  deriving DecidableEq, Repr

/-- Who may touch a job. -/
inductive Owner
  | free
  | invocation (t : Tid)
  | operation
  deriving DecidableEq, Repr

/-- Where the answer to a request is awaited. -/
inductive Stage
  | new
  | invocation (t : Tid)
  | operation (j : JobPtr)
  | answered
  deriving DecidableEq, Repr

/-- What must not happen: that an invocation touches a job which it does not have,
that a `unique_ptr` is overwritten and destroys a job, that a null handle is used,
that a message is freed which is not live. -/
inductive Fault
  | touch (t : Tid) (j : JobPtr)
  | destroyed (j : JobPtr)
  | null (t : Tid)
  | freed (m : MsgPtr)
  deriving DecidableEq, Repr

/-- A call of `nng_aio_finish`, with the output that was set. -/
structure Finish where
  req : Req
  code : Error
  output : Option Response
  deriving DecidableEq, Repr

/-- What the invocations share. `head` is `job_freelist`; while it is being
changed, `hook` is the job whose `next` the rest of the list hangs from. -/
structure Shared where
  jobs : JobPtr → Job
  lock : Option Tid
  head : Option JobPtr
  heap : MsgPtr → Option Unit
  taken : MsgPtr → Option JobPtr
  data : Req → List UInt8
  output : Req → Option Response
  reply : Req → Option (List UInt8)
  log : List Finish
  owner : JobPtr → Option Owner
  request : JobPtr → Option Req
  stage : Req → Stage
  serving : Tid → Option Req
  recycledBy : Req → Option Tid
  hook : Option JobPtr
  lost : MsgPtr → Bool
  faults : List Fault

namespace Shared

/-- Where the list of the free jobs begins. -/
def freelist (s : Shared) : Option JobPtr :=
  match s.hook with
  | none => s.head
  | some j => (s.jobs j).next

/-- An invocation uses a job. -/
def touch (s : Shared) (t : Tid) (j : JobPtr) : Shared :=
  if s.owner j = some (.invocation t) then s else { s with faults := s.faults ++ [.touch t j] }

/-- An invocation uses a handle. -/
def needs {α : Type} (s : Shared) (t : Tid) : Option α → Shared
  | some _ => s
  | none => { s with faults := s.faults ++ [.null t] }

/-- A `unique_ptr` with this pointer is overwritten. -/
def destroys (s : Shared) : Option JobPtr → Shared
  | none => s
  | some j => { s with faults := s.faults ++ [.destroyed j] }

/-- `if( m != nullptr ) nng_msg_free(m);`. -/
def freeMsg (s : Shared) : Option Message → Shared
  | none => s
  | some m =>
      if s.heap m.ptr = none then { s with faults := s.faults ++ [.freed m.ptr] }
      else { s with heap := update s.heap m.ptr none }

def setJob (s : Shared) (j : JobPtr) (x : Job) : Shared := { s with jobs := update s.jobs j x }

/-- A request waits somewhere else now. -/
def moveStage (s : Shared) (r : Option Req) (g : Stage) : Shared :=
  match r with
  | none => s
  | some r => { s with stage := update s.stage r g }

end Shared

/-- What nng answers: a handle, or a failure. -/
abbrev Reply := Answer ℕ

abbrev Action (α : Type) := Tid → Reply → Shared → Option (α × Shared)

abbrev Code (α : Type) := Lib.Code Tid Reply Shared Exception α

/-! ### The list -/

/-- `job_lock.lock()`. -/
def lock : Action Unit := fun t _ s =>
  if s.lock = none then some ((), { s with lock := some t }) else none

/-- `job_lock.unlock()`. -/
def unlock : Action Unit := fun _ _ s => some ((), { s with lock := none })

/-- `job = std::move(job_freelist);`: the invocation takes the job for its
request. -/
def popHead : Action (Option JobPtr) := fun t _ s =>
  match s.head with
  | none => some (none, s)
  | some j =>
      some (some j, { s with
        head := none
        hook := some j
        owner := update s.owner j (some (.invocation t))
        request := update s.request j (s.serving t) })

/-- `job_freelist = std::move(job->next);`. -/
def headFromNext (j : JobPtr) : Action Unit := fun t _ s =>
  let x := s.jobs j
  some ((), { ((s.touch t j).destroys s.head).setJob j { x with next := none } with
    head := x.next
    hook := none })

/-- `std::make_unique<rest_job>()`, which may throw. -/
def makeJob : Action (Answer JobPtr) := fun t ans s =>
  match ans with
  | .error e => some (.error e, s)
  | .ok j =>
      if s.owner j = none then
        some (.ok j, { s.setJob j {} with
          owner := update s.owner j (some (.invocation t))
          request := update s.request j (s.serving t) })
      else none

/-- `job->next = std::move(job_freelist);`. -/
def nextFromHead (j : JobPtr) : Action Unit := fun t _ s =>
  let x := s.jobs j
  some ((), { ((s.touch t j).destroys x.next).setJob j { x with next := s.head } with
    head := none
    hook := some j })

/-- `job_freelist = std::move(job);`: the job is given up. -/
def headFromJob (j : JobPtr) : Action Unit := fun t _ s =>
  some ((), { (s.touch t j).destroys s.head with
    head := some j
    hook := none
    owner := update s.owner j (some .free)
    request := update s.request j none
    recycledBy := match s.request j with
      | none => s.recycledBy
      | some r => update s.recycledBy r (some t) })

/-! ### The fields of a job -/

/-- A statement that uses a field of a job and changes it, maybe. -/
def onJob {α : Type} (j : JobPtr) (f : Job → α × Job) : Action α := fun t _ s =>
  let r := f (s.jobs j)
  some (r.1, (s.touch t j).setJob j r.2)

def read {α : Type} (j : JobPtr) (f : Job → α) : Action α := onJob j fun x => (f x, x)

def assign (j : JobPtr) (f : Job → Job) : Action Unit := onJob j fun x => ((), f x)

/-- `job->http_res.release()`, and the move from `job->http_res`. -/
def takeRes (j : JobPtr) : Action (Option Response) :=
  onJob j fun x => (x.httpRes, { x with httpRes := none })

/-- `job->http_res.copy_data( job->msg.body().get() )`. -/
def copyData (j : JobPtr) : Action Error := fun t ans s =>
  let x := s.jobs j
  let s' := ((s.touch t j).needs t x.httpRes).needs t x.msg
  match ans with
  | .error e => some (e.val, s')
  | .ok _ =>
      some (.success, s'.setJob j { x with
        httpRes := x.httpRes.map fun p => { p with
          data := (x.msg.map Message.body).getD []
          source := x.msg.bind Message.source } })

/-- `job->msg = nng::msg();`. -/
def dropMsg (j : JobPtr) : Action Unit := fun t _ s =>
  let x := s.jobs j
  some ((), ((s.touch t j).freeMsg x.msg).setJob j { x with msg := none })

/-- `job->msg = nng::msg(size);`. -/
def allocMsg (j : JobPtr) (size : ℕ) : Action Error := fun t ans s =>
  match ans with
  | .error e => some (e.val, s)
  | .ok m =>
      if s.heap m = none then
        let x := s.jobs j
        let s' := (s.touch t j).freeMsg x.msg
        some (.success, { s' with heap := update s'.heap m (some ()) }.setJob j { x with
          msg := some ⟨m, List.replicate size 0, none⟩ })
      else none

/-- `memcpy( job->msg.body().data(), data.data(), data.size() );`. -/
def fillMsg (j : JobPtr) (data : List UInt8) : Action Unit := fun t _ s =>
  let x := s.jobs j
  some ((), ((s.touch t j).needs t x.msg).setJob j { x with
    msg := x.msg.map fun m => { m with body := data ++ m.body.drop data.length } })

/-- `nng::ctx(req_sock)`. -/
def openCtx : Action (Answer Context) := fun t ans s =>
  match ans with
  | .error e => some (.error e, s)
  | .ok c => some (.ok ⟨c, s.serving t⟩, s)

/-- The move assignment to `job->ctx`, which closes the context that is there;
the code that it throws. -/
def assignCtx (j : JobPtr) (c : Option Context) : Action Error := fun t ans s =>
  let x := s.jobs j
  let assigned := (s.touch t j).setJob j { x with ctx := c }
  match x.ctx, ans with
  | some _, .error e =>
      if e.val = .closed then some (.success, assigned) else some (e.val, s.touch t j)
  | _, _ => some (.success, assigned)

/-- `job->aio.set_msg( std::move(job->msg) )`. -/
def setMsg (j : JobPtr) : Action Unit := fun t _ s =>
  let x := s.jobs j
  some ((), { s.touch t j with lost := lose s.lost (x.aio.slot.map Message.ptr) }.setJob j { x with
    msg := none
    aio := { x.aio with slot := x.msg } })

/-- `aio.set_msg(nullptr)`. -/
def clearSlot (j : JobPtr) : Action Unit := fun t _ s =>
  let x := s.jobs j
  some ((), { s.touch t j with lost := lose s.lost (x.aio.slot.map Message.ptr) }.setJob j { x with
    aio := { x.aio with slot := none } })

/-- `job->msg = aio.release_msg();`. -/
def releaseMsg (j : JobPtr) : Action Unit := fun t _ s =>
  let x := s.jobs j
  some ((), ((s.touch t j).freeMsg x.msg).setJob j { x with
    msg := x.aio.slot
    aio := { x.aio with slot := none } })

/-- `job->ctx.send(aio)`, `job->ctx.recv(aio)`: from here on the job is the
callback's. -/
def start (j : JobPtr) (op : Option Context → Operation) : Action Unit := fun t _ s =>
  let x := s.jobs j
  some ((), { (((s.touch t j).needs t x.ctx).setJob j { x with
    aio := { x.aio with op := some (op x.ctx) } }).moveStage (s.request j) (.operation j) with
    owner := update s.owner j (some .operation) })

/-! ### The HTTP server -/

/-- A call of nng that only answers. -/
def call : Action Error := fun _ ans s => some (ans.code, s)

/-- `req.get_data()`. -/
def getData (a : Req) : Action (List UInt8) := fun _ _ s => some (s.data a, s)

/-- `aio.set_output(0,res)`. -/
def setOutput (a : Option Req) (res : Option Response) : Action Error := fun t ans s =>
  match a, ans with
  | none, _ => some (ans.code, s.needs t a)
  | some _, .error e => some (e.val, s)
  | some r, .ok _ => some (.success, { s with output := update s.output r res })

/-- `aio.finish(e)`. -/
def finish (a : Option Req) (e : Error) : Action Unit := fun t _ s =>
  match a with
  | none => some ((), s.needs t a)
  | some r =>
      some ((), { s with
        log := s.log ++ [⟨r, e, s.output r⟩]
        stage := update s.stage r .answered })

end Nngpp.Rest
