import Nngpp.Lib.Mutex
import Nngpp.Rest.Answers

/-!
What a statement of the proxy can do to jobs and requests.

A statement changes nothing that matters here, or one job that the invocation has,
or it takes a job, gives one back, starts an operation, or finishes a request
(`Moves`). Each statement is looked at once; what is always true of owners,
requests, stages and operations follows from the six cases.

The same goes through the functions: `Typed` says for each of them where the lock
is taken and given back, and how many statements it has, with those that the
operation it starts brings with it.
-/

namespace Nngpp.Rest

open Function Lib

variable {strict : Prop} {t : Tid} {s s' s'' : Shared} {j : JobPtr}

/-- Two states with the same jobs, for the same requests. -/
structure Same (s s' : Shared) : Prop where
  data : s'.data = s.data
  owner : s'.owner = s.owner
  jobs : s'.jobs = s.jobs
  request : s'.request = s.request
  stage : s'.stage = s.stage
  reply : s'.reply = s.reply

namespace Same

theorem refl (s : Shared) : Same s s := ⟨rfl, rfl, rfl, rfl, rfl, rfl⟩

theorem trans (h : Same s s') (h' : Same s' s'') : Same s s'' :=
  ⟨h'.data.trans h.data, h'.owner.trans h.owner, h'.jobs.trans h.jobs,
    h'.request.trans h.request, h'.stage.trans h.stage, h'.reply.trans h.reply⟩

theorem touch : Same s (s.touch t j) := by
  unfold Shared.touch
  split <;> exact ⟨rfl, rfl, rfl, rfl, rfl, rfl⟩

theorem needs {α : Type} (o : Option α) : Same s (s.needs t o) := by
  cases o <;> exact ⟨rfl, rfl, rfl, rfl, rfl, rfl⟩

theorem destroys (o : Option JobPtr) : Same s (s.destroys o) := by
  cases o <;> exact ⟨rfl, rfl, rfl, rfl, rfl, rfl⟩

theorem freeMsg (o : Option Message) : Same s (s.freeMsg o) := by
  cases o with
  | none => exact .refl s
  | some m =>
      unfold Shared.freeMsg
      dsimp only
      split <;> exact ⟨rfl, rfl, rfl, rfl, rfl, rfl⟩

theorem setJob (h : Same s s') (x : Job) : Same (s.setJob j x) (s'.setJob j x) := by
  refine ⟨h.data, h.owner, ?_, h.request, h.stage, h.reply⟩
  simp only [Shared.setJob, h.jobs]

end Same

/-! ### Faults -/

/-- Without a fault, who touches a job has it. -/
theorem owner_of_touch (h : (s.touch t j).faults = []) : s.owner j = some (.invocation t) := by
  unfold Shared.touch at h
  split at h
  · assumption
  · simp at h

theorem faults_needs {α : Type} {o : Option α} (h : (s.needs t o).faults = []) :
    s.faults = [] := by
  cases o with
  | none => simp [Shared.needs] at h
  | some a => exact h

theorem faults_destroys {o : Option JobPtr} (h : (s.destroys o).faults = []) : s.faults = [] := by
  cases o with
  | none => exact h
  | some j => simp [Shared.destroys] at h

theorem faults_freeMsg {o : Option Message} (h : (s.freeMsg o).faults = []) : s.faults = [] := by
  cases o with
  | none => exact h
  | some m =>
      unfold Shared.freeMsg at h
      dsimp only at h
      split at h
      · simp at h
      · exact h

/-! ### The lock -/

@[simp] theorem lock_touch : (s.touch t j).lock = s.lock := by
  unfold Shared.touch
  split <;> rfl

@[simp] theorem lock_needs {α : Type} (o : Option α) : (s.needs t o).lock = s.lock := by
  cases o <;> rfl

@[simp] theorem lock_destroys (o : Option JobPtr) : (s.destroys o).lock = s.lock := by
  cases o <;> rfl

@[simp] theorem lock_freeMsg (o : Option Message) : (s.freeMsg o).lock = s.lock := by
  cases o with
  | none => rfl
  | some m =>
      unfold Shared.freeMsg
      dsimp only
      split <;> rfl

@[simp] theorem lock_moveStage (r : Option Req) (g : Stage) : (s.moveStage r g).lock = s.lock := by
  cases r <;> rfl

@[simp] theorem lock_setJob (x : Job) : (s.setJob j x).lock = s.lock := rfl

/-! ### Moves -/

/-- The operation that a statement starts. -/
inductive Start
  | send | recv
  deriving DecidableEq

def Start.operation : Start → Option Context → Operation
  | .send => .send
  | .recv => .recv

/-- What a statement of an invocation does to jobs and requests. -/
inductive Moves (t : Tid) (start : Option Start) (s s' : Shared) : Prop
  | stays (same : Same s s')
  | edits (j : JobPtr) (x : Job) (owner : s.owner j = some (.invocation t))
      (op : x.aio.op = (s.jobs j).aio.op) (same : Same (s.setJob j x) s')
  | takes (j : JobPtr) (owner : s.owner j ≠ some .operation)
      (same : Same { s with
        owner := update s.owner j (some (.invocation t))
        request := update s.request j (s.serving t) } s')
  | gives (j : JobPtr) (owner : s.owner j = some (.invocation t))
      (same : Same { s with
        owner := update s.owner j (some .free)
        request := update s.request j none } s')
  | starts (o : Start) (j : JobPtr) (x : Job) (c : Option Context) (hstart : start = some o)
      (owner : s.owner j = some (.invocation t)) (op : x.aio.op = some (o.operation c))
      (slot : x.aio.slot = (s.jobs j).aio.slot)
      (same : Same { (s.setJob j x).moveStage (s.request j) (.operation j) with
        owner := update s.owner j (some .operation) } s')
  | finishes (r : Req) (same : Same { s with stage := update s.stage r .answered } s')

/-- A statement that starts this, or nothing. -/
def Moving (strict : Prop) (start : Option Start) {β : Type} (f : Action β) : Prop :=
  ∀ t ans s b s', Inv strict s → Inv strict s' → f t ans s = some (b, s') → Moves t start s s'

section Statements

theorem moving_call : Moving strict none call := by
  intro t ans s b s' hs hs' hf
  obtain ⟨-, rfl⟩ := Prod.mk.inj (Option.some.inj hf)
  exact .stays (.refl s)

theorem moving_getData (a : Req) : Moving strict none (getData a) := by
  intro t ans s b s' hs hs' hf
  obtain ⟨-, rfl⟩ := Prod.mk.inj (Option.some.inj hf)
  exact .stays (.refl s)

theorem moving_openCtx : Moving strict none openCtx := by
  intro t ans s b s' hs hs' hf
  cases ans <;> obtain ⟨-, rfl⟩ := Prod.mk.inj (Option.some.inj hf) <;> exact .stays (.refl s)

theorem moving_lock : Moving strict none lock := by
  intro t ans s b s' hs hs' hf
  obtain ⟨-, hf⟩ := Option.ite_none_right_eq_some.mp hf
  obtain ⟨-, rfl⟩ := Prod.mk.inj (Option.some.inj hf)
  exact .stays ⟨rfl, rfl, rfl, rfl, rfl, rfl⟩

theorem moving_unlock : Moving strict none unlock := by
  intro t ans s b s' hs hs' hf
  obtain ⟨-, rfl⟩ := Prod.mk.inj (Option.some.inj hf)
  exact .stays ⟨rfl, rfl, rfl, rfl, rfl, rfl⟩

theorem moving_setOutput (a : Option Req) (res : Option Response) :
    Moving strict none (setOutput a res) := by
  intro t ans s b s' hs hs' hf
  cases a with
  | none =>
      obtain ⟨-, rfl⟩ := Prod.mk.inj (Option.some.inj hf)
      exact .stays (.needs none)
  | some r =>
      cases ans with
      | error e =>
          obtain ⟨-, rfl⟩ := Prod.mk.inj (Option.some.inj hf)
          exact .stays (.refl s)
      | ok c =>
          obtain ⟨-, rfl⟩ := Prod.mk.inj (Option.some.inj hf)
          exact .stays ⟨rfl, rfl, rfl, rfl, rfl, rfl⟩

theorem moving_finish (a : Option Req) (e : Error) : Moving strict none (finish a e) := by
  intro t ans s b s' hs hs' hf
  cases a with
  | none =>
      obtain ⟨-, rfl⟩ := Prod.mk.inj (Option.some.inj hf)
      exact .stays (.needs none)
  | some r =>
      obtain ⟨-, rfl⟩ := Prod.mk.inj (Option.some.inj hf)
      exact .finishes r ⟨rfl, rfl, rfl, rfl, rfl, rfl⟩

/-- A job that is changed is the invocation's own, or there is a fault. -/
theorem Moves.edit {start : Option Start} {x : Job} (hsame : Same s s'') (howner : s.owner j = some (.invocation t))
    (hop : x.aio.op = (s.jobs j).aio.op) : Moves t start s (s''.setJob j x) :=
  .edits j x howner hop (hsame.setJob x)

theorem moving_onJob {α : Type} {f : Job → α × Job} (hop : ∀ x, (f x).2.aio.op = x.aio.op) :
    Moving strict none (onJob j f) := by
  intro t ans s b s' hs hs' hf
  obtain ⟨-, rfl⟩ := Prod.mk.inj (Option.some.inj hf)
  exact .edit .touch (owner_of_touch hs'.noFault) (hop _)

theorem moving_copyData : Moving strict none (copyData j) := by
  intro t ans s b s' hs hs' hf
  have hsame : Same s (((s.touch t j).needs t (s.jobs j).httpRes).needs t (s.jobs j).msg) :=
    (Same.touch.trans (.needs _)).trans (.needs _)
  cases ans with
  | error e =>
      obtain ⟨-, rfl⟩ := Prod.mk.inj (Option.some.inj hf)
      exact .stays hsame
  | ok a =>
      obtain ⟨-, rfl⟩ := Prod.mk.inj (Option.some.inj hf)
      exact .edit hsame (owner_of_touch (faults_needs (faults_needs hs'.noFault))) rfl

theorem moving_dropMsg : Moving strict none (dropMsg j) := by
  intro t ans s b s' hs hs' hf
  obtain ⟨-, rfl⟩ := Prod.mk.inj (Option.some.inj hf)
  exact .edit (Same.touch.trans (.freeMsg _)) (owner_of_touch (faults_freeMsg hs'.noFault)) rfl

theorem moving_allocMsg (size : ℕ) : Moving strict none (allocMsg j size) := by
  intro t ans s b s' hs hs' hf
  cases ans with
  | error e =>
      obtain ⟨-, rfl⟩ := Prod.mk.inj (Option.some.inj hf)
      exact .stays (.refl s)
  | ok m =>
      obtain ⟨-, hf⟩ := Option.ite_none_right_eq_some.mp hf
      obtain ⟨-, rfl⟩ := Prod.mk.inj (Option.some.inj hf)
      have hsame := (Same.touch (s := s) (t := t) (j := j)).trans (.freeMsg (s.jobs j).msg)
      refine .edit (hsame.trans ⟨rfl, rfl, rfl, rfl, rfl, rfl⟩) ?_ rfl
      exact owner_of_touch (faults_freeMsg hs'.noFault)

theorem moving_fillMsg (body : List UInt8) : Moving strict none (fillMsg j body) := by
  intro t ans s b s' hs hs' hf
  obtain ⟨-, rfl⟩ := Prod.mk.inj (Option.some.inj hf)
  exact .edit (Same.touch.trans (.needs _)) (owner_of_touch (faults_needs hs'.noFault)) rfl

theorem moving_assignCtx (c : Option Context) : Moving strict none (assignCtx j c) := by
  intro t ans s b s' hs hs' hf
  unfold assignCtx at hf
  dsimp only at hf
  split at hf
  · split at hf
    · obtain ⟨-, rfl⟩ := Prod.mk.inj (Option.some.inj hf)
      exact .edit .touch (owner_of_touch hs'.noFault) rfl
    · obtain ⟨-, rfl⟩ := Prod.mk.inj (Option.some.inj hf)
      exact .stays .touch
  · obtain ⟨-, rfl⟩ := Prod.mk.inj (Option.some.inj hf)
    exact .edit .touch (owner_of_touch hs'.noFault) rfl

theorem moving_setMsg : Moving strict none (setMsg j) := by
  intro t ans s b s' hs hs' hf
  obtain ⟨-, rfl⟩ := Prod.mk.inj (Option.some.inj hf)
  exact .edit (Same.touch.trans ⟨rfl, rfl, rfl, rfl, rfl, rfl⟩) (owner_of_touch hs'.noFault) rfl

theorem moving_clearSlot : Moving strict none (clearSlot j) := by
  intro t ans s b s' hs hs' hf
  obtain ⟨-, rfl⟩ := Prod.mk.inj (Option.some.inj hf)
  exact .edit (Same.touch.trans ⟨rfl, rfl, rfl, rfl, rfl, rfl⟩) (owner_of_touch hs'.noFault) rfl

theorem moving_releaseMsg : Moving strict none (releaseMsg j) := by
  intro t ans s b s' hs hs' hf
  obtain ⟨-, rfl⟩ := Prod.mk.inj (Option.some.inj hf)
  exact .edit (Same.touch.trans (.freeMsg _)) (owner_of_touch (faults_freeMsg hs'.noFault)) rfl

theorem moving_headFromNext : Moving strict none (headFromNext j) := by
  intro t ans s b s' hs hs' hf
  obtain ⟨-, rfl⟩ := Prod.mk.inj (Option.some.inj hf)
  have hsame : Same s ((s.touch t j).destroys s.head) := Same.touch.trans (.destroys _)
  refine .edits j { s.jobs j with next := none } ?_ rfl ?_
  · exact owner_of_touch (faults_destroys hs'.noFault)
  · exact (hsame.setJob _).trans ⟨rfl, rfl, rfl, rfl, rfl, rfl⟩

theorem moving_nextFromHead : Moving strict none (nextFromHead j) := by
  intro t ans s b s' hs hs' hf
  obtain ⟨-, rfl⟩ := Prod.mk.inj (Option.some.inj hf)
  have hsame : Same s ((s.touch t j).destroys (s.jobs j).next) := Same.touch.trans (.destroys _)
  refine .edits j { s.jobs j with next := s.head } ?_ rfl ?_
  · exact owner_of_touch (faults_destroys hs'.noFault)
  · exact (hsame.setJob _).trans ⟨rfl, rfl, rfl, rfl, rfl, rfl⟩

/-- A job that is an operation's has one under way. -/
theorem Kept.underway (h : Kept strict s j) (howner : s.owner j = some .operation) :
    (s.jobs j).aio.op ≠ none := by
  cases h with
  | new owner => simp [owner] at howner
  | free owner => simp [owner] at howner
  | operation r owner request stage reply awaits =>
      obtain ⟨c, -, -, ⟨-, hsend, -⟩ | ⟨-, hrecv, -⟩⟩ := awaits.started
      · simp [hsend]
      · simp [hrecv]
  | invocation t r owner => simp [owner] at howner

/-- A job that an invocation has in the end was not an operation's before, because
its operation is the same. -/
theorem not_operation (hs : Inv strict s) (hs' : Inv strict s')
    (howner : s'.owner j = some (.invocation t)) (hop : (s'.jobs j).aio.op = (s.jobs j).aio.op) :
    s.owner j ≠ some .operation := by
  intro h
  obtain ⟨-, -, -, -, hnone⟩ := (hs'.jobs j).of_owner howner
  exact (hs.jobs j).underway h (hop.symm.trans hnone)

theorem moving_popHead : Moving strict none popHead := by
  intro t ans s b s' hs hs' hf
  cases hhead : s.head with
  | none =>
      simp only [popHead, hhead, Option.some.injEq] at hf
      obtain ⟨-, rfl⟩ := Prod.mk.inj hf
      exact .stays (.refl s)
  | some j =>
      simp only [popHead, hhead, Option.some.injEq] at hf
      obtain ⟨-, rfl⟩ := Prod.mk.inj hf
      refine .takes j ?_ ⟨rfl, rfl, rfl, rfl, rfl, rfl⟩
      exact not_operation hs hs' (update_self ..) rfl

theorem moving_makeJob : Moving strict none makeJob := by
  intro t ans s b s' hs hs' hf
  cases ans with
  | error e =>
      obtain ⟨-, rfl⟩ := Prod.mk.inj (Option.some.inj hf)
      exact .stays (.refl s)
  | ok j =>
      obtain ⟨hnew, hf⟩ := Option.ite_none_right_eq_some.mp hf
      obtain ⟨-, rfl⟩ := Prod.mk.inj (Option.some.inj hf)
      have hjob : update s.jobs j {} = s.jobs := by
        rw [← (hs.jobs j).of_none hnew, update_eq_self]
      exact .takes j (by simp [hnew]) ⟨rfl, rfl, hjob, rfl, rfl, rfl⟩

theorem moving_headFromJob : Moving strict none (headFromJob j) := by
  intro t ans s b s' hs hs' hf
  obtain ⟨-, rfl⟩ := Prod.mk.inj (Option.some.inj hf)
  have hsame : Same s ((s.touch t j).destroys s.head) := Same.touch.trans (.destroys _)
  refine .gives j ?_ ?_
  · exact owner_of_touch (faults_destroys hs'.noFault)
  · exact ⟨hsame.data, rfl, hsame.jobs, rfl, hsame.stage, hsame.reply⟩

theorem faults_moveStage (r : Option Req) (g : Stage) : (s.moveStage r g).faults = s.faults := by
  cases r <;> rfl

theorem Same.moveStage (h : Same s s') (r : Option Req) (g : Stage) :
    Same (s.moveStage r g) (s'.moveStage r g) := by
  cases r with
  | none => exact h
  | some r => exact ⟨h.data, h.owner, h.jobs, h.request, by simp [Shared.moveStage, h.stage], h.reply⟩

theorem moving_start (o : Start) : Moving strict (some o) (start j o.operation) := by
  intro t ans s b s' hs hs' hf
  obtain ⟨-, rfl⟩ := Prod.mk.inj (Option.some.inj hf)
  have hsame : Same s ((s.touch t j).needs t (s.jobs j).ctx) := Same.touch.trans (.needs _)
  refine .starts o j { s.jobs j with
    aio := { (s.jobs j).aio with op := some (o.operation (s.jobs j).ctx) } } (s.jobs j).ctx rfl
    ?_ rfl rfl ?_
  · have hfaults := hs'.noFault
    change (Shared.moveStage _ _ _).faults = [] at hfaults
    rw [faults_moveStage] at hfaults
    exact owner_of_touch (faults_needs hfaults)
  · have hmoved := (hsame.setJob (j := j) { s.jobs j with
      aio := { (s.jobs j).aio with op := some (o.operation (s.jobs j).ctx) } }).moveStage
        (s.request j) (.operation j)
    exact ⟨hmoved.data, rfl, hmoved.jobs, hmoved.request, hmoved.stage, hmoved.reply⟩

end Statements

/-! ### The lock -/

section Locks

variable {has : Bool}

/-- Everything but the statements about the lock can go on, and leaves it alone. -/
abbrev Plain {β : Type} (f : Action β) : Prop := ∀ has, Locking Shared.lock f has has

/-- A statement that always takes effect. -/
theorem Plain.of_total {β : Type} {f : Action β} {g : Tid → Reply → Shared → β × Shared}
    (hf : ∀ t ans s, f t ans s = some (g t ans s)) (hlock : ∀ t ans s, (g t ans s).2.lock = s.lock) :
    Plain f := by
  intro has
  refine .plain (fun t s => ⟨.ok 0, _, hf t (.ok 0) s⟩) fun t ans s b s' h => ?_
  obtain ⟨-, rfl⟩ := Prod.mk.inj (Option.some.inj ((hf t ans s).symm.trans h))
  exact hlock t ans s

/-- Some failure. -/
def someFailure : Failure := ⟨.closed, by decide⟩

theorem plain_call : Plain call :=
  .of_total (fun _ _ _ => rfl) fun _ _ _ => rfl

theorem plain_getData (a : Req) : Plain (getData a) :=
  .of_total (fun _ _ _ => rfl) fun _ _ _ => rfl

theorem plain_openCtx : Plain openCtx := by
  intro has
  refine .plain (fun t s => ⟨.ok 0, _, rfl⟩) ?_
  intro t ans s b s' hf
  cases ans <;> obtain ⟨-, rfl⟩ := Prod.mk.inj (Option.some.inj hf) <;> rfl

theorem plain_setOutput (a : Option Req) (res : Option Response) : Plain (setOutput a res) := by
  intro has
  cases a with
  | none =>
      refine .plain (fun t s => ⟨.ok 0, _, rfl⟩) ?_
      intro t ans s b s' hf
      obtain ⟨-, rfl⟩ := Prod.mk.inj (Option.some.inj hf)
      rfl
  | some r =>
      refine .plain (fun t s => ⟨.ok 0, _, rfl⟩) ?_
      intro t ans s b s' hf
      cases ans <;> obtain ⟨-, rfl⟩ := Prod.mk.inj (Option.some.inj hf) <;> rfl

theorem plain_finish (a : Option Req) (e : Error) : Plain (finish a e) := by
  intro has
  cases a <;> refine .plain (fun t s => ⟨.ok 0, _, rfl⟩) ?_ <;> intro t ans s b s' hf <;>
    obtain ⟨-, rfl⟩ := Prod.mk.inj (Option.some.inj hf) <;> rfl

theorem plain_onJob {α : Type} (f : Job → α × Job) : Plain (onJob j f) :=
  .of_total (fun _ _ _ => rfl) fun _ _ _ => by simp

theorem plain_copyData : Plain (copyData j) := by
  intro has
  refine .plain (fun t s => ⟨.ok 0, _, rfl⟩) ?_
  intro t ans s b s' hf
  cases ans <;> obtain ⟨-, rfl⟩ := Prod.mk.inj (Option.some.inj hf) <;> simp

theorem plain_dropMsg : Plain (dropMsg j) :=
  .of_total (fun _ _ _ => rfl) fun _ _ _ => by simp

/-- nng may have no memory. -/
theorem plain_allocMsg (size : ℕ) : Plain (allocMsg j size) := by
  intro has
  refine .plain (fun t s => ⟨.error someFailure, _, rfl⟩) ?_
  intro t ans s b s' hf
  cases ans with
  | error e =>
      obtain ⟨-, rfl⟩ := Prod.mk.inj (Option.some.inj hf)
      rfl
  | ok m =>
      obtain ⟨-, hf⟩ := Option.ite_none_right_eq_some.mp hf
      obtain ⟨-, rfl⟩ := Prod.mk.inj (Option.some.inj hf)
      simp

theorem plain_fillMsg (body : List UInt8) : Plain (fillMsg j body) :=
  .of_total (fun _ _ _ => rfl) fun _ _ _ => by simp

theorem plain_assignCtx (c : Option Context) : Plain (assignCtx j c) := by
  intro has
  refine .plain (fun t s => ?_) ?_
  · have hsome : assignCtx j c t (.ok 0) s ≠ none := by
      cases hctx : (s.jobs j).ctx <;> simp [assignCtx, hctx]
    exact ⟨.ok 0, Option.ne_none_iff_exists'.mp hsome⟩
  · intro t ans s b s' hf
    unfold assignCtx at hf
    dsimp only at hf
    split at hf
    · split at hf <;> obtain ⟨-, rfl⟩ := Prod.mk.inj (Option.some.inj hf) <;> simp
    · obtain ⟨-, rfl⟩ := Prod.mk.inj (Option.some.inj hf)
      simp

theorem plain_setMsg : Plain (setMsg j) :=
  .of_total (fun _ _ _ => rfl) fun _ _ _ => by simp

theorem plain_clearSlot : Plain (clearSlot j) :=
  .of_total (fun _ _ _ => rfl) fun _ _ _ => by simp

theorem plain_releaseMsg : Plain (releaseMsg j) :=
  .of_total (fun _ _ _ => rfl) fun _ _ _ => by simp

theorem plain_headFromNext : Plain (headFromNext j) :=
  .of_total (fun _ _ _ => rfl) fun _ _ _ => by simp

theorem plain_nextFromHead : Plain (nextFromHead j) :=
  .of_total (fun _ _ _ => rfl) fun _ _ _ => by simp

theorem plain_popHead : Plain popHead := by
  intro has
  refine .plain (fun t s => ?_) ?_
  · have hsome : popHead t (.ok 0) s ≠ none := by
      cases hhead : s.head <;> simp [popHead, hhead]
    exact ⟨.ok 0, Option.ne_none_iff_exists'.mp hsome⟩
  · intro t ans s b s' hf
    cases hhead : s.head with
    | none =>
        simp only [popHead, hhead, Option.some.injEq] at hf
        obtain ⟨-, rfl⟩ := Prod.mk.inj hf
        rfl
    | some j =>
        simp only [popHead, hhead, Option.some.injEq] at hf
        obtain ⟨-, rfl⟩ := Prod.mk.inj hf
        rfl

theorem plain_makeJob : Plain makeJob := by
  intro has
  refine .plain (fun t s => ⟨.error someFailure, _, rfl⟩) ?_
  intro t ans s b s' hf
  cases ans with
  | error e =>
      obtain ⟨-, rfl⟩ := Prod.mk.inj (Option.some.inj hf)
      rfl
  | ok j =>
      obtain ⟨-, hf⟩ := Option.ite_none_right_eq_some.mp hf
      obtain ⟨-, rfl⟩ := Prod.mk.inj (Option.some.inj hf)
      rfl

theorem plain_headFromJob : Plain (headFromJob j) :=
  .of_total (fun _ _ _ => rfl) fun _ _ _ => by simp

theorem plain_start (op : Option Context → Operation) : Plain (start j op) :=
  .of_total (fun _ _ _ => rfl) fun _ _ _ => by simp

theorem locking_lock : Locking Shared.lock lock false true := by
  refine .acquire (fun t s hs => ⟨.ok 0, _, if_pos hs⟩) ?_
  intro t ans s b s' hf
  obtain ⟨hnone, hf⟩ := Option.ite_none_right_eq_some.mp hf
  obtain ⟨-, rfl⟩ := Prod.mk.inj (Option.some.inj hf)
  exact ⟨hnone, rfl⟩

theorem locking_unlock : Locking Shared.lock unlock true false := by
  refine .release (fun t s => ⟨.ok 0, _, rfl⟩) ?_
  intro t ans s b s' hf
  obtain ⟨-, rfl⟩ := Prod.mk.inj (Option.some.inj hf)
  rfl

end Locks

/-! ### The functions -/

/-- How many steps an operation brings with it when it is started: its completion,
and the statements of the callback that is called then. -/
def Start.cost : Start → ℕ
  | .send => 25
  | .recv => 19

/-- How many statements the callback has when it has looked at the state of the job. -/
def JobState.cost : JobState → ℕ
  | .sendReq => 23
  | .recvRep => 17

/-- What a statement does with the lock, and with the number of statements that are
left. It starts an operation that `K` allows, or none. -/
inductive Effect (strict : Prop) (K : Start → Prop) {β : Type} (f : Action β) :
    Bool × ℕ → Bool × ℕ → Prop
  | step {has has' : Bool} {n : ℕ} (locking : Locking Shared.lock f has has')
      (moving : Moving strict none f) : Effect strict K f (has, n + 1) (has', n)
  | start {has : Bool} {n m : ℕ} (o : Start) (allowed : K o) (locking : Plain f)
      (moving : Moving strict (some o) f) (hm : m = n + 1 + o.cost) :
      Effect strict K f (has, m) (has, n)

section Functions

variable {K : Start → Prop} {e e' : Bool × ℕ} {X : Bool × ℕ → Prop} {n : ℕ}

theorem Effect.plain {β : Type} {f : Action β} (hf : Plain f) (moving : Moving strict none f)
    {has : Bool} : Effect strict K f (has, n + 1) (has, n) :=
  .step (hf has) moving

/-- A read, or an assignment to a field that is not the aio. -/
theorem Effect.onJob {α : Type} {f : Job → α × Job} (hop : ∀ x, (f x).2.aio.op = x.aio.op)
    {has : Bool} : Effect strict K (onJob j f) (has, n + 1) (has, n) :=
  .plain (plain_onJob f) (moving_onJob hop)

theorem typed_checked {f : Action Error} {source : String} {Q : Unit → Bool × ℕ → Prop}
    (hf : Effect strict K f e e') (hQ : Q () e') (hX : X e') :
    Code.Typed (Effect strict K) (checked f source) Q X e := by
  apply Code.Typed.act_bind hf
  intro r
  by_cases hr : r = .success
  · rw [if_neg (not_not.mpr hr)]
    exact Code.Typed.pure hQ
  · rw [if_pos hr]
    exact Code.Typed.throw hX

theorem typed_made {α : Type} {f : Action (Answer α)} {source : String}
    {Q : α → Bool × ℕ → Prop} (hf : Effect strict K f e e') (hQ : ∀ a, Q a e') (hX : X e') :
    Code.Typed (Effect strict K) (made f source) Q X e := by
  apply Code.Typed.act_bind hf
  intro r
  cases r with
  | error _ => exact Code.Typed.throw hX
  | ok a => exact Code.Typed.pure (hQ a)

variable {Q : Unit → Bool × ℕ → Prop}

theorem typed_restRecycleJob (hQ : Q () (false, n)) (hX : ∀ m, X (false, m)) :
    Code.Typed (Effect strict K) (restRecycleJob j) Q X (false, n + 7) := by
  apply Code.Typed.act_bind (.onJob fun _ => rfl)
  intro _
  apply Code.Typed.act_bind (.plain plain_dropMsg moving_dropMsg)
  intro _
  apply Code.Typed.bind
  apply typed_checked (.plain (plain_assignCtx none) (moving_assignCtx none)) _ (hX _)
  apply Code.Typed.act_bind (.step locking_lock moving_lock)
  intro _
  apply Code.Typed.act_bind (.plain plain_nextFromHead moving_nextFromHead)
  intro _
  apply Code.Typed.act_bind (.plain plain_headFromJob moving_headFromJob)
  intro _
  exact Code.Typed.act (.step locking_unlock moving_unlock) fun _ => hQ

theorem typed_restGetJob {Q : Option JobPtr → Bool × ℕ → Prop} (hQ : ∀ o, Q o (false, n))
    (hX : ∀ m, X (false, m)) :
    Code.Typed (Effect strict K) restGetJob Q X (false, n + 4) := by
  apply Code.Typed.act_bind (.step locking_lock moving_lock)
  intro _
  apply Code.Typed.act_bind (.plain plain_popHead moving_popHead)
  intro o
  cases o with
  | none =>
      apply Code.Typed.act_bind (.step locking_unlock moving_unlock)
      intro _
      apply Code.Typed.bind
      exact typed_made (.plain plain_makeJob moving_makeJob) (fun j => hQ (some j)) (hX _)
  | some j =>
      apply Code.Typed.act_bind (.plain plain_headFromNext moving_headFromNext)
      intro _
      apply Code.Typed.act_bind (.step locking_unlock moving_unlock)
      intro _
      exact Code.Typed.pure (hQ (some j))

theorem typed_restHttpFatal {who : String} {what : Error} (hQ : Q () (false, n))
    (hX : ∀ m, X (false, m)) :
    Code.Typed (Effect strict K) (restHttpFatal j who what) Q X (false, n + 14) := by
  apply Code.Typed.act_bind (.onJob fun _ => rfl)
  intro _
  apply Code.Typed.act_bind (.onJob fun _ => rfl)
  intro _
  apply Code.Typed.act_bind (.onJob fun _ => rfl)
  intro _
  apply Code.Typed.bind
  apply typed_checked (.plain plain_call moving_call) _ (hX _)
  apply Code.Typed.bind
  apply typed_checked (.plain plain_call moving_call) _ (hX _)
  apply Code.Typed.bind
  apply typed_checked (.plain (plain_setOutput _ _) (moving_setOutput _ _)) _ (hX _)
  apply Code.Typed.act_bind (.plain (plain_finish _ _) (moving_finish _ _))
  intro _
  exact typed_restRecycleJob hQ hX

theorem typed_onSent (hrecv : K .recv) (hQ : ∀ m, Q () (false, m)) (hX : ∀ m, X (false, m)) :
    Code.Typed (Effect strict K) (onSent j) Q X (false, n + 23) := by
  apply Code.Typed.act_bind (.onJob fun _ => rfl)
  intro result
  by_cases hr : result = .success
  · rw [if_neg (not_not.mpr hr)]
    apply Code.Typed.act_bind (.plain plain_clearSlot moving_clearSlot)
    intro _
    apply Code.Typed.act_bind (.onJob fun _ => rfl)
    intro _
    exact Code.Typed.act (.start .recv hrecv (plain_start .recv) (moving_start .recv) rfl)
      fun _ => hQ n
  · rw [if_pos hr]
    exact typed_restHttpFatal (hQ _) hX

theorem typed_onReceived (hQ : ∀ m, Q () (false, m)) (hX : ∀ m, X (false, m)) :
    Code.Typed (Effect strict K) (onReceived j) Q X (false, n + 17) := by
  apply Code.Typed.act_bind (.onJob fun _ => rfl)
  intro result
  by_cases hr : result = .success
  · rw [if_neg (not_not.mpr hr)]
    apply Code.Typed.act_bind (.plain plain_releaseMsg moving_releaseMsg)
    intro _
    apply Code.Typed.bind
    apply Code.Typed.attempt
    apply typed_checked (.plain plain_copyData moving_copyData)
    · apply Code.Typed.act_bind (.onJob fun _ => rfl)
      intro _
      apply Code.Typed.act_bind (.onJob fun _ => rfl)
      intro _
      apply Code.Typed.bind
      apply typed_checked (.plain (plain_setOutput _ _) (moving_setOutput _ _)) _ (hX _)
      apply Code.Typed.act_bind (.onJob fun _ => rfl)
      intro _
      apply Code.Typed.act_bind (.plain (plain_finish _ _) (moving_finish _ _))
      intro _
      apply Code.Typed.act_bind (.onJob fun _ => rfl)
      intro _
      exact typed_restRecycleJob (hQ _) hX
    · exact fun _ => typed_restHttpFatal (hQ _) hX
  · rw [if_pos hr]
    exact typed_restHttpFatal (hQ _) hX

theorem typed_prepare (hQ : Q () (false, n)) (hX : ∀ m, n ≤ m → X (false, m)) :
    Code.Typed (Effect strict K) (prepare j) Q X (false, n + 4) := by
  apply Code.Typed.bind
  apply Code.Typed.bind
  apply typed_checked (.plain plain_call moving_call) _ (hX _ (by omega))
  apply Code.Typed.pure
  apply Code.Typed.act_bind (.onJob fun _ => rfl)
  intro _
  apply Code.Typed.bind
  apply typed_made (.plain plain_openCtx moving_openCtx) _ (hX _ (by omega))
  intro c
  exact typed_checked (.plain (plain_assignCtx _) (moving_assignCtx _)) hQ (hX _ (by omega))

theorem typed_forward (hsend : K .send) {a : Req} (hQ : ∀ m, Q () (false, m))
    (hX : ∀ m, X (false, m)) :
    Code.Typed (Effect strict K) (forward a j) Q X (false, n + 32) := by
  apply Code.Typed.act_bind (.plain (plain_getData a) (moving_getData a))
  intro data
  apply Code.Typed.act_bind (.onJob fun _ => rfl)
  intro _
  apply Code.Typed.bind
  apply Code.Typed.attempt
  apply typed_checked (.plain (plain_allocMsg _) (moving_allocMsg _))
  · apply Code.Typed.act_bind (.plain (plain_fillMsg data) (moving_fillMsg data))
    intro _
    apply Code.Typed.act_bind (.plain plain_setMsg moving_setMsg)
    intro _
    apply Code.Typed.act_bind (.onJob fun _ => rfl)
    intro _
    exact Code.Typed.act (.start .send hsend (plain_start .send) (moving_start .send) rfl)
      fun _ => hQ n
  · exact fun _ => typed_restHttpFatal (hQ _) hX

/-- The end of an invocation. -/
abbrev Ended (_ : Unit) (e : Bool × ℕ) : Prop := e.1 = false

theorem typed_restJobCb_state (state : JobState) (hrecv : state = .sendReq → K .recv) :
    (Code.orExit (match state with
      | .sendReq => onSent j
      | .recvRep => onReceived j)).Typed (Effect strict K) Ended
      (false, state.cost) := by
  apply Code.Typed.orExit
  cases state with
  | sendReq => exact typed_onSent (n := 0) (hrecv rfl) (fun _ => rfl) fun _ => trivial
  | recvRep => exact typed_onReceived (n := 0) (fun _ => rfl) fun _ => trivial

theorem typed_restJobCb (hrecv : K .recv) :
    (restJobCb j).Typed (Effect strict K) Ended (false, 24) := by
  apply Code.Typed.orExit
  apply Code.Typed.act_bind (.onJob fun _ => rfl)
  intro state
  cases state with
  | sendReq => exact typed_onSent (n := 0) hrecv (fun _ => rfl) fun _ => trivial
  | recvRep => exact typed_onReceived (n := 6) (fun _ => rfl) fun _ => trivial

theorem typed_restHandle (hsend : K .send) (a : Req) :
    (restHandle a).Typed (Effect strict K) Ended (false, 40) := by
  apply Code.Typed.orExit
  apply Code.Typed.bind
  apply typed_restGetJob (n := 36) _ fun _ => trivial
  intro o
  cases o with
  | none => exact Code.Typed.act (.plain (plain_finish _ _) (moving_finish _ _)) fun _ => rfl
  | some j =>
      apply Code.Typed.bind
      apply Code.Typed.attempt
      apply typed_prepare (n := 32)
      · exact typed_forward (n := 0) hsend (fun _ => rfl) fun _ => trivial
      · intro m hm y
        obtain ⟨k, rfl⟩ : ∃ k, m = k + 1 + 7 := ⟨m - 8, by omega⟩
        apply Code.Typed.bind
        apply typed_restRecycleJob _ fun _ => trivial
        exact Code.Typed.act (.plain (plain_finish _ _) (moving_finish _ _)) fun _ => rfl

end Functions

end Nngpp.Rest
