import Nngpp.Lib.Chain
import Nngpp.Rest.Server

/-!
Who has a job and who has to answer a request.

A job is not yet made, or on the freelist, or waits for the operation that was
started on it, or belongs to one invocation; `Kept` says what each of these means
for its fields and for its request. A request, likewise, has not come yet, or is
the affair of one invocation, or of the operation of its job, or is answered
(`Told`). The freelist is a chain of just the free jobs, also in the middle of a
change (`Listed`). `Inv` is all of this together.

An invocation sees its own job, its unanswered request, and the list while it has
the lock. What the others see is unaffected by what it does with them (`Frame`).

The invariant has a parameter. When a send fails, its message stays in the aio of
the job, and it is still there when the job is put on the freelist. `strict` says
that no send fails: then the aio of a free job is empty.
-/

namespace Nngpp.Rest

open Function Lib

variable {strict : Prop} {s s' : Shared}

/-! ### Messages -/

inductive Place
  | slot (j : JobPtr)
  | msg (j : JobPtr)
  deriving DecidableEq

def held (s : Shared) : Place → Option MsgPtr
  | .slot j => (s.jobs j).aio.slot.map Message.ptr
  | .msg j => (s.jobs j).msg.map Message.ptr

theorem held_setJob (j : JobPtr) (x : Job) :
    held (s.setJob j x) = update (update (held s) (.slot j) (x.aio.slot.map Message.ptr))
      (.msg j) (x.msg.map Message.ptr) := by
  ext p
  rcases p with i | i
  · rcases eq_or_ne i j with rfl | hi
    · simp [held, Shared.setJob]
    · simp [held, Shared.setJob, hi]
  · rcases eq_or_ne i j with rfl | hi
    · simp [held, Shared.setJob]
    · simp [held, Shared.setJob, hi]

theorem held_setJob_slot {j : JobPtr} {x : Job} (hmsg : x.msg.map Message.ptr = held s (.msg j)) :
    held (s.setJob j x) = update (held s) (.slot j) (x.aio.slot.map Message.ptr) := by
  rw [held_setJob, hmsg, update_comm (by simp), update_eq_self]

theorem held_setJob_msg {j : JobPtr} {x : Job}
    (hslot : x.aio.slot.map Message.ptr = held s (.slot j)) :
    held (s.setJob j x) = update (held s) (.msg j) (x.msg.map Message.ptr) := by
  rw [held_setJob, hslot, update_eq_self]

/-! ### Jobs -/

/-- The aio of a job which no operation uses any more. -/
structure Spent (strict : Prop) (x : Job) : Prop where
  op : x.aio.op = none
  /-- What is in the slot is the message of a send that failed. -/
  slot : x.aio.slot ≠ none ↔ x.state = .sendReq ∧ x.aio.result ≠ .success
  empty : strict → x.aio.slot = none

theorem Spent.congr {x y : Job} (h : Spent strict x) (haio : y.aio = x.aio)
    (hstate : y.state = x.state) : Spent strict y := by
  refine ⟨?_, ?_, ?_⟩
  · rw [haio, h.op]
  · rw [haio, hstate, h.slot]
  · rw [haio]
    exact h.empty

/-- A job that can be taken for a request. -/
structure Idle (strict : Prop) (x : Job) : Prop where
  httpAio : x.httpAio = none
  httpRes : x.httpRes = none
  msg : x.msg = none
  ctx : x.ctx = none
  spent : Spent strict x

/-- A job that waits for its operation, for a request. -/
structure Awaits (r : Req) (x : Job) : Prop where
  httpAio : x.httpAio = some r
  httpRes : x.httpRes = some .new
  msg : x.msg = none
  next : x.next = none
  started : ∃ c : Context, c.source = some r ∧ x.ctx = some c ∧
    (x.state = .sendReq ∧ x.aio.op = some (.send (some c)) ∧ x.aio.slot ≠ none ∨
      x.state = .recvRep ∧ x.aio.op = some (.recv (some c)) ∧ x.aio.slot = none)

/-- What its owner means for a job. -/
inductive Kept (strict : Prop) (s : Shared) (j : JobPtr) : Prop
  | new (owner : s.owner j = none) (job : s.jobs j = {}) (request : s.request j = none)
  | free (owner : s.owner j = some .free) (idle : Idle strict (s.jobs j))
      (request : s.request j = none)
  | operation (r : Req) (owner : s.owner j = some .operation) (request : s.request j = some r)
      (stage : s.stage r = .operation j) (reply : s.reply r = none) (awaits : Awaits r (s.jobs j))
  | invocation (t : Tid) (r : Req) (owner : s.owner j = some (.invocation t))
      (request : s.request j = some r) (serving : s.serving t = some r)
      (stage : s.stage r = .invocation t ∨ s.stage r = .answered) (op : (s.jobs j).aio.op = none)

namespace Kept

variable {j : JobPtr}

/-- A job stays as it is when nobody touches it and its request. -/
theorem congr (h : Kept strict s j) (hjob : s'.jobs j = s.jobs j) (howner : s'.owner j = s.owner j)
    (hrequest : s'.request j = s.request j)
    (hserving : ∀ u, s.owner j = some (.invocation u) → s'.serving u = s.serving u)
    (hstage : ∀ r, s.request j = some r → s'.stage r = s.stage r ∧ s'.reply r = s.reply r) :
    Kept strict s' j := by
  cases h with
  | new owner job request =>
      exact .new (howner.trans owner) (hjob.trans job) (hrequest.trans request)
  | free owner idle request =>
      exact .free (howner.trans owner) (hjob.symm ▸ idle) (hrequest.trans request)
  | operation r owner request stage reply awaits =>
      obtain ⟨hs, hr⟩ := hstage r request
      exact .operation r (howner.trans owner) (hrequest.trans request) (hs.trans stage)
        (hr.trans reply) (hjob.symm ▸ awaits)
  | invocation t r owner request serving stage op =>
      refine .invocation t r (howner.trans owner) (hrequest.trans request)
        ((hserving t owner).trans serving) ?_ (hjob.symm ▸ op)
      rwa [(hstage r request).1]

/-- The request that an invocation has to answer is that of its own job, if it is
the request of a job at all. -/
theorem of_stage (h : Kept strict s j) {t : Tid} {r : Req} (hrequest : s.request j = some r)
    (hstage : s.stage r = .invocation t) : s.owner j = some (.invocation t) := by
  cases h with
  | new owner job request =>
      rw [request] at hrequest
      cases hrequest
  | free owner idle request =>
      rw [request] at hrequest
      cases hrequest
  | operation r' owner request stage =>
      obtain rfl : r' = r := Option.some.inj (request.symm.trans hrequest)
      rw [stage] at hstage
      cases hstage
  | invocation u r' owner request serving stage =>
      obtain rfl : r' = r := Option.some.inj (request.symm.trans hrequest)
      obtain stage | stage := stage
      · rw [stage] at hstage
        rw [owner, Stage.invocation.inj hstage]
      · rw [stage] at hstage
        cases hstage

theorem of_none (h : Kept strict s j) (howner : s.owner j = none) : s.jobs j = {} := by
  cases h with
  | new owner job => exact job
  | free owner => simp [owner] at howner
  | operation r owner => simp [owner] at howner
  | invocation t r owner => simp [owner] at howner

theorem of_free (h : Kept strict s j) (howner : s.owner j = some .free) :
    Idle strict (s.jobs j) := by
  cases h with
  | new owner => simp [owner] at howner
  | free owner idle => exact idle
  | operation r owner => simp [owner] at howner
  | invocation t r owner => simp [owner] at howner

/-- What an invocation may assume of a job that it has. -/
theorem of_owner (h : Kept strict s j) {t : Tid} (howner : s.owner j = some (.invocation t)) :
    ∃ r, s.request j = some r ∧ s.serving t = some r ∧
      (s.stage r = .invocation t ∨ s.stage r = .answered) ∧ (s.jobs j).aio.op = none := by
  cases h with
  | new owner => simp [owner] at howner
  | free owner => simp [owner] at howner
  | operation r owner => simp [owner] at howner
  | invocation u r owner request serving stage op =>
      obtain rfl : u = t := by simpa [owner] using howner
      exact ⟨r, request, serving, stage, op⟩

/-- A request which has not come yet is the request of no job. -/
theorem not_new (h : Kept strict s j) {r : Req} (hrequest : s.request j = some r) :
    s.stage r ≠ .new := by
  cases h with
  | new owner job request => simp [request] at hrequest
  | free owner idle request => simp [request] at hrequest
  | operation r' owner request stage =>
      obtain rfl : r' = r := Option.some.inj (request.symm.trans hrequest)
      simp [stage]
  | invocation t r' owner request serving stage =>
      obtain rfl : r' = r := Option.some.inj (request.symm.trans hrequest)
      obtain stage | stage := stage
      · simp [stage]
      · simp [stage]

/-- An operation is outstanding only on a job that waits for it. -/
theorem of_op (h : Kept strict s j) (hop : (s.jobs j).aio.op ≠ none) :
    s.owner j = some .operation ∧ ∃ r, s.request j = some r ∧ s.stage r = .operation j ∧
      s.reply r = none ∧ Awaits r (s.jobs j) := by
  cases h with
  | new owner job => simp [job] at hop
  | free owner idle => exact absurd idle.spent.op hop
  | operation r owner request stage reply awaits =>
      exact ⟨owner, r, request, stage, reply, awaits⟩
  | invocation t r owner request serving stage op => exact absurd op hop

end Kept

/-! ### Requests -/

/-- The answers to a request. -/
def answers (s : Shared) (r : Req) : List Finish := s.log.filter fun f => f.req = r

/-- What a request may be answered: that the job could not be prepared, that
something failed later, or what nng delivered for it. -/
inductive Settled (r : Req) (reply : Option (List UInt8)) : Finish → Prop
  | refused (e : Error) (failure : e ≠ .success) (early : reply = none) :
      Settled r reply ⟨r, e, none⟩
  | failed (who : String) (what : Error) (copy : reply = none ∨ who = "nng_http_res_copy_data") :
      Settled r reply ⟨r, .success, some ⟨500, some (who, what), [], none⟩⟩
  | replied (body : List UInt8) (delivered : reply = some body) :
      Settled r reply ⟨r, .success, some ⟨200, none, body, some r⟩⟩

/-- What its stage means for a request. -/
inductive Told (s : Shared) (r : Req) : Prop
  | new (stage : s.stage r = .new) (log : answers s r = []) (output : s.output r = none)
      (reply : s.reply r = none) (recycled : s.recycledBy r = none)
  | invocation (t : Tid) (stage : s.stage r = .invocation t) (log : answers s r = [])
      (recycled : ∀ u, s.recycledBy r = some u → u = t)
  | operation (j : JobPtr) (stage : s.stage r = .operation j) (log : answers s r = [])
      (output : s.output r = none) (recycled : s.recycledBy r = none)
  | answered (f : Finish) (stage : s.stage r = .answered) (log : answers s r = [f])
      (settled : Settled r (s.reply r) f)

/-- A request that has not been answered has no answer. -/
theorem Told.unanswered {r : Req} (h : Told s r) (hstage : s.stage r ≠ .answered) :
    answers s r = [] := by
  cases h with
  | new stage log => exact log
  | invocation t stage log => exact log
  | operation j stage log => exact log
  | answered f stage => exact absurd stage hstage

/-- Nothing has been done about a request which has not come yet, or waits for its
operation. -/
theorem Told.untouched {r : Req} (h : Told s r) (hanswered : s.stage r ≠ .answered)
    (hinvocation : ∀ t, s.stage r ≠ .invocation t) :
    answers s r = [] ∧ s.output r = none ∧ s.recycledBy r = none := by
  cases h with
  | new stage log output reply recycled => exact ⟨log, output, recycled⟩
  | invocation t stage => exact absurd stage (hinvocation t)
  | operation j stage log output recycled => exact ⟨log, output, recycled⟩
  | answered f stage => exact absurd stage hanswered

theorem Told.of_new {r : Req} (h : Told s r) (hstage : s.stage r = .new) : s.reply r = none := by
  cases h with
  | new stage log output reply => exact reply
  | invocation t stage => simp [hstage] at stage
  | operation j stage => simp [hstage] at stage
  | answered f stage => simp [hstage] at stage

theorem Told.congr {r : Req} (h : Told s r) (hstage : s'.stage r = s.stage r)
    (hanswers : answers s' r = answers s r) (houtput : s'.output r = s.output r)
    (hreply : s'.reply r = s.reply r) (hrecycled : s'.recycledBy r = s.recycledBy r) :
    Told s' r := by
  cases h with
  | new stage log output reply recycled =>
      exact .new (hstage.trans stage) (hanswers.trans log) (houtput.trans output)
        (hreply.trans reply) (hrecycled.trans recycled)
  | invocation t stage log recycled =>
      exact .invocation t (hstage.trans stage) (hanswers.trans log) (hrecycled.symm ▸ recycled)
  | operation j stage log output recycled =>
      exact .operation j (hstage.trans stage) (hanswers.trans log) (houtput.trans output)
        (hrecycled.trans recycled)
  | answered f stage log settled =>
      exact .answered f (hstage.trans stage) (hanswers.trans log) (hreply.symm ▸ settled)

/-! ### The invariant -/

/-- The list is a chain of the free jobs, and only an invocation that has the lock
has taken it apart. -/
structure Listed (s : Shared) : Prop where
  chain : ∃ l, Chain (fun j => (s.jobs j).next) s.freelist l ∧ ∀ j, j ∈ l ↔ s.owner j = some .free
  hooked : ∀ j, s.hook = some j → ∃ t, s.lock = some t ∧ s.owner j = some (.invocation t)

/-- The list is the same when the same jobs are free, and no pointer has changed. -/
theorem Listed.congr (h : Listed s) (hnext : ∀ i, (s'.jobs i).next = (s.jobs i).next)
    (hfree : ∀ i, s'.owner i = some .free ↔ s.owner i = some .free) (hhead : s'.head = s.head)
    (hhook : s'.hook = s.hook) (hlock : s'.lock = s.lock)
    (hown : ∀ i u, s.hook = some i → s.lock = some u → s.owner i = some (.invocation u) →
      s'.owner i = some (.invocation u)) : Listed s' := by
  have hstart : s'.freelist = s.freelist := by
    unfold Shared.freelist
    rw [hhook, hhead]
    split
    · rfl
    · exact hnext _
  refine ⟨?_, fun i hi => ?_⟩
  · rw [hstart]
    simp only [hnext, hfree]
    exact h.chain
  · obtain ⟨u, hu, howner⟩ := h.hooked i (hhook ▸ hi)
    exact ⟨u, hlock.trans hu, hown i u (hhook ▸ hi) hu howner⟩

structure Inv (strict : Prop) (s : Shared) : Prop where
  custody : Entrusted (held s) s.taken s.lost s.heap
  kept : strict → ∀ m, s.lost m = false
  noFault : s.faults = []
  listed : Listed s
  jobs : ∀ j, Kept strict s j
  requests : ∀ r, Told s r
  exclusive : ∀ {i j r}, s.request i = some r → s.request j = some r → i = j

theorem inv_init (strict : Prop) (data : Req → List UInt8) : Inv strict (.init data) where
  custody := by
    have hheld : held (.init data) = fun _ => none := by
      ext p
      cases p <;> rfl
    rw [hheld]
    exact Entrusted.empty (fun _ => none) fun _ => ()
  kept _ _ := rfl
  noFault := rfl
  listed := ⟨⟨[], .nil, fun _ => ⟨nofun, nofun⟩⟩, nofun⟩
  jobs _ := .new rfl rfl rfl
  requests _ := .new rfl rfl rfl rfl rfl
  exclusive := nofun

/-- A change of a job that leaves its messages where they are. -/
theorem Inv.custody_setJob (hs : Inv strict s) {j : JobPtr} {x : Job}
    (hslot : x.aio.slot.map Message.ptr = held s (.slot j))
    (hmsg : x.msg.map Message.ptr = held s (.msg j)) :
    Entrusted (held (s.setJob j x)) s.taken s.lost s.heap := by
  rw [held_setJob, hslot, hmsg, update_eq_self, update_eq_self]
  exact hs.custody

/-! ### Views -/

/-- A request that an invocation has to answer, with the output that was set, what
nng delivered for it, and who has recycled its job. -/
structure Pending where
  req : Req
  output : Option Response
  reply : Option (List UInt8)
  recycled : Option Tid

/-- A request as it is before anything has been done about it. -/
def Pending.open (r : Req) (reply : Option (List UInt8)) : Pending := ⟨r, none, reply, none⟩

/-- What an invocation knows: the request that it serves, the one that it has to
answer, its job, and the list while it has the lock. -/
structure View where
  serving : Option Req
  pending : Option Pending
  job : Option (JobPtr × Job)
  list : Option (Option JobPtr × Option JobPtr)

structure Sees (t : Tid) (s : Shared) (v : View) : Prop where
  serving : v.serving = s.serving t
  pending : ∀ p : Pending, v.pending = some p ↔
    s.stage p.req = .invocation t ∧ s.output p.req = p.output ∧ s.reply p.req = p.reply ∧
      s.recycledBy p.req = p.recycled
  job : ∀ j x, v.job = some (j, x) ↔ s.owner j = some (.invocation t) ∧ s.jobs j = x
  list : ∀ p, v.list = some p ↔ s.lock = some t ∧ (s.head, s.hook) = p

def logic (strict : Prop) : Logic Tid Shared View where
  Inv := Inv strict
  Sees := Sees

/-- An invocation has left alone what is not its own. -/
structure Frame (t : Tid) (s s' : Shared) : Prop where
  serving : ∀ u, u ≠ t → s'.serving u = s.serving u
  pending : ∀ u, u ≠ t → ∀ r, (s'.stage r = .invocation u ↔ s.stage r = .invocation u) ∧
    (s.stage r = .invocation u →
      s'.output r = s.output r ∧ s'.reply r = s.reply r ∧ s'.recycledBy r = s.recycledBy r)
  job : ∀ u, u ≠ t → ∀ j, (s'.owner j = some (.invocation u) ↔ s.owner j = some (.invocation u)) ∧
    (s.owner j = some (.invocation u) → s'.jobs j = s.jobs j)
  list : ∀ u, u ≠ t → (s'.lock = some u ↔ s.lock = some u) ∧
    (s.lock = some u → s'.head = s.head ∧ s'.hook = s.hook)

theorem Frame.frames {t : Tid} (h : Frame t s s') : (logic strict).Frames t s s' := by
  intro u hu v hv
  refine ⟨hv.serving.trans (h.serving u hu).symm, ?_, ?_, ?_⟩
  · intro p
    rw [hv.pending]
    obtain ⟨hstage, hsame⟩ := h.pending u hu p.req
    constructor
    · rintro ⟨hp, hrest⟩
      obtain ⟨houtput, hreply, hrecycled⟩ := hsame hp
      exact ⟨hstage.mpr hp, by rwa [houtput, hreply, hrecycled]⟩
    · rintro ⟨hp, hrest⟩
      have hp := hstage.mp hp
      obtain ⟨houtput, hreply, hrecycled⟩ := hsame hp
      exact ⟨hp, by rwa [← houtput, ← hreply, ← hrecycled]⟩
  · intro j x
    rw [hv.job]
    obtain ⟨howner, hsame⟩ := h.job u hu j
    constructor
    · rintro ⟨hj, hx⟩
      exact ⟨howner.mpr hj, (hsame hj).trans hx⟩
    · rintro ⟨hj, hx⟩
      have hj := howner.mp hj
      exact ⟨hj, (hsame hj).symm.trans hx⟩
  · intro p
    rw [hv.list]
    obtain ⟨hlock, hsame⟩ := h.list u hu
    constructor
    · rintro ⟨hl, hp⟩
      exact ⟨hlock.mpr hl, by rw [(hsame hl).1, (hsame hl).2, hp]⟩
    · rintro ⟨hl, hp⟩
      have hl := hlock.mp hl
      exact ⟨hl, by rw [← (hsame hl).1, ← (hsame hl).2, hp]⟩

end Nngpp.Rest
