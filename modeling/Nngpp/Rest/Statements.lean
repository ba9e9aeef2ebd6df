import Nngpp.Rest.Ownership

/-!
The contracts of the statements of the REST proxy.

Most statements change a job that the invocation has, and perhaps free or make a
message: `spec_edit` is the one proof for these. The others change the list, the
owner of a job, or the stage of a request, and each has its own proof; they are
the places where a job or a request passes from one to another.
-/

namespace Nngpp.Rest

open Function Lib

variable {strict : Prop} {t : Tid} {s s' : Shared}

/-! ### What an invocation sees -/

section Views

variable {q : Option Req} {p : Option Pending} {l : Option (Option JobPtr × Option JobPtr)}
  {j : JobPtr} {x : Job}

theorem Sees.own {w : Option (JobPtr × Job)} (h : Sees t s ⟨q, p, w, l⟩) (hw : w = some (j, x)) :
    s.owner j = some (.invocation t) ∧ s.jobs j = x :=
  (h.job j x).mp hw

theorem Sees.only {w : Option (JobPtr × Job)} (h : Sees t s ⟨q, p, w, l⟩) (hw : w = some (j, x))
    {i : JobPtr} (hi : s.owner i = some (.invocation t)) : i = j := by
  have hboth : w = some (i, s.jobs i) := (h.job i _).mpr ⟨hi, rfl⟩
  rw [hw] at hboth
  exact (congrArg Prod.fst (Option.some.inj hboth)).symm

theorem Sees.jobless {v : View} (h : Sees t s v) (hv : v.job = none) (i : JobPtr) :
    s.owner i ≠ some (.invocation t) := by
  intro hi
  have hsome : v.job = some (i, s.jobs i) := (h.job i _).mpr ⟨hi, rfl⟩
  rw [hv] at hsome
  cases hsome

theorem Sees.settled {v : View} (h : Sees t s v) (hv : v.pending = none) (r : Req) :
    s.stage r ≠ .invocation t := by
  intro hr
  have hsome : v.pending = some ⟨r, s.output r, s.reply r, s.recycledBy r⟩ :=
    (h.pending _).mpr ⟨hr, rfl, rfl, rfl⟩
  rw [hv] at hsome
  cases hsome

theorem Sees.unlocked {v : View} (h : Sees t s v) (hv : v.list = none) : s.lock ≠ some t := by
  intro hl
  have hsome : v.list = some (s.head, s.hook) := (h.list _).mpr ⟨hl, rfl⟩
  rw [hv] at hsome
  cases hsome

/-- An invocation has one job, which is this. -/
theorem sees_job (howner : s.owner j = some (.invocation t)) (hjob : s.jobs j = x)
    (honly : ∀ i, s.owner i = some (.invocation t) → i = j) (i : JobPtr) (y : Job) :
    some (j, x) = some (i, y) ↔ s.owner i = some (.invocation t) ∧ s.jobs i = y := by
  constructor
  · intro h
    obtain ⟨rfl, rfl⟩ := Prod.mk.inj (Option.some.inj h)
    exact ⟨howner, hjob⟩
  · rintro ⟨hi, rfl⟩
    rw [honly i hi, hjob]

theorem sees_jobless (h : ∀ i, s.owner i ≠ some (.invocation t)) (i : JobPtr) (y : Job) :
    none = some (i, y) ↔ s.owner i = some (.invocation t) ∧ s.jobs i = y :=
  ⟨nofun, fun hi => absurd hi.1 (h i)⟩

theorem Sees.pending_only {v : View} {p : Pending} (h : Sees t s v) (hv : v.pending = some p)
    {r : Req} (hr : s.stage r = .invocation t) : r = p.req := by
  have hsome : v.pending = some ⟨r, s.output r, s.reply r, s.recycledBy r⟩ :=
    (h.pending _).mpr ⟨hr, rfl, rfl, rfl⟩
  rw [hv] at hsome
  rw [Option.some.inj hsome]

/-- An invocation has one request to answer, which is this. -/
theorem sees_pending {p : Pending} (hstage : s.stage p.req = .invocation t)
    (houtput : s.output p.req = p.output) (hreply : s.reply p.req = p.reply)
    (hrecycled : s.recycledBy p.req = p.recycled)
    (honly : ∀ r, s.stage r = .invocation t → r = p.req) (p' : Pending) :
    some p = some p' ↔ s.stage p'.req = .invocation t ∧ s.output p'.req = p'.output ∧
      s.reply p'.req = p'.reply ∧ s.recycledBy p'.req = p'.recycled := by
  constructor
  · rintro ⟨⟩
    exact ⟨hstage, houtput, hreply, hrecycled⟩
  · rintro ⟨hr, houtput', hreply', hrecycled'⟩
    cases p'
    obtain rfl := honly _ hr
    simp only at houtput' hreply' hrecycled'
    rw [← houtput', ← hreply', ← hrecycled', houtput, hreply, hrecycled]

theorem sees_settled (h : ∀ r, s.stage r ≠ .invocation t) (p : Pending) :
    none = some p ↔ s.stage p.req = .invocation t ∧ s.output p.req = p.output ∧
      s.reply p.req = p.reply ∧ s.recycledBy p.req = p.recycled :=
  ⟨nofun, fun hp => absurd hp.1 (h p.req)⟩

end Views

/-! ### Statements that change nothing -/

theorem spec_still {β : Type} {f : Action β} {v : View} {P : β → View → Prop}
    (h : ∀ s ans, Sees t s v → ∃ b, f t ans s = some (b, s) ∧ P b v) :
    (logic strict).Spec t f v P := by
  intro s ans b s' hs hsees hf
  obtain ⟨b', hb', hP⟩ := h s ans hsees
  obtain ⟨rfl, rfl⟩ := Prod.mk.inj (Option.some.inj (hb'.symm.trans hf))
  exact ⟨hs, fun _ _ _ hu => hu, v, hsees, hP⟩

theorem spec_call {v : View} {P : Error → View → Prop} (h : ∀ e, P e v) :
    (logic strict).Spec t call v P :=
  spec_still fun _ ans _ => ⟨ans.code, rfl, h _⟩

theorem spec_getData {a : Req} {v : View} {P : List UInt8 → View → Prop} (h : ∀ data, P data v) :
    (logic strict).Spec t (getData a) v P :=
  spec_still fun s _ _ => ⟨s.data a, rfl, h _⟩

theorem spec_openCtx {v : View} {P : Answer Context → View → Prop}
    (hok : ∀ c, P (.ok ⟨c, v.serving⟩) v) (herror : ∀ e, P (.error e) v) :
    (logic strict).Spec t openCtx v P := by
  apply spec_still
  intro s ans hsees
  cases ans with
  | error e => exact ⟨_, rfl, herror e⟩
  | ok c => exact ⟨_, rfl, hsees.serving ▸ hok c⟩

/-! ### Statements that change a job -/

/-- A state in which an invocation has changed its job, and the messages in it. -/
def Shared.edit (s : Shared) (j : JobPtr) (x : Job) (heap : MsgPtr → Option Unit)
    (lost : MsgPtr → Bool) : Shared :=
  { s with jobs := update s.jobs j x, heap := heap, lost := lost }

section Edit

variable {j : JobPtr} {x : Job} {heap : MsgPtr → Option Unit} {lost : MsgPtr → Bool}

theorem inv_edit (hs : Inv strict s) (hj : s.owner j = some (.invocation t))
    (hnext : x.next = (s.jobs j).next) (hop : x.aio.op = (s.jobs j).aio.op)
    (hcustody : Entrusted (held (s.setJob j x)) s.taken lost heap)
    (hkept : strict → ∀ m, lost m = false) : Inv strict (s.edit j x heap lost) where
  custody := hcustody
  kept := hkept
  noFault := hs.noFault
  listed := by
    refine hs.listed.congr (fun i => ?_) (fun _ => Iff.rfl) rfl rfl rfl fun _ _ _ _ hi => hi
    rcases eq_or_ne i j with rfl | hi
    · simpa [Shared.edit] using hnext
    · simp [Shared.edit, hi]
  jobs i := by
    rcases eq_or_ne i j with rfl | hi
    · obtain ⟨r, request, serving, stage, op⟩ := (hs.jobs i).of_owner hj
      exact .invocation t r hj request serving stage (by simp [Shared.edit, hop, op])
    · exact (hs.jobs i).congr (update_of_ne hi ..) rfl rfl (fun _ _ => rfl) fun _ _ => ⟨rfl, rfl⟩
  requests r := (hs.requests r).congr rfl rfl rfl rfl rfl
  exclusive := hs.exclusive

theorem frame_edit (hj : s.owner j = some (.invocation t)) : Frame t s (s.edit j x heap lost) where
  serving _ _ := rfl
  pending _ _ _ := ⟨Iff.rfl, fun _ => ⟨rfl, rfl, rfl⟩⟩
  job u hu i := by
    refine ⟨Iff.rfl, fun hi => ?_⟩
    have hne : i ≠ j := by
      rintro rfl
      exact hu (by simpa [hi] using hj)
    simp [Shared.edit, hne]
  list _ _ := ⟨Iff.rfl, fun _ => ⟨rfl, rfl⟩⟩

variable {q : Option Req} {p : Option Pending} {l : Option (Option JobPtr × Option JobPtr)}

theorem sees_edit {y : Job} (h : Sees t s ⟨q, p, some (j, y), l⟩) :
    Sees t (s.edit j x heap lost) ⟨q, p, some (j, x), l⟩ where
  serving := h.serving
  pending := h.pending
  job := by
    apply sees_job
    · exact (h.own rfl).1
    · simp [Shared.edit]
    · exact fun _ hi => h.only rfl hi
  list := h.list

theorem touch_of_owner (hj : s.owner j = some (.invocation t)) : s.touch t j = s := by
  simp [Shared.touch, hj]

/-- A statement that changes a job, and goes on having it. -/
theorem spec_edit {β : Type} {f : Action β} {P : β → View → Prop}
    (h : ∀ s ans b s', Inv strict s → s.owner j = some (.invocation t) → s.jobs j = x →
      f t ans s = some (b, s') → ∃ y heap lost, s' = s.edit j y heap lost ∧ y.next = x.next ∧
        y.aio.op = x.aio.op ∧ Entrusted (held (s.setJob j y)) s.taken lost heap ∧
        (strict → ∀ m, lost m = false) ∧ P b ⟨q, p, some (j, y), l⟩) :
    (logic strict).Spec t f ⟨q, p, some (j, x), l⟩ P := by
  intro s ans b s' hs hsees hf
  obtain ⟨hj, rfl⟩ := hsees.own rfl
  obtain ⟨y, heap, lost, rfl, hnext, hop, hcustody, hkept, hP⟩ := h s ans b s' hs hj rfl hf
  exact ⟨inv_edit hs hj hnext hop hcustody hkept, (frame_edit hj).frames, _, sees_edit hsees, hP⟩

/-- A change of a job that does not concern its messages. -/
theorem spec_onJob {α : Type} (f : Job → α × Job) {P : α → View → Prop}
    (hslot : (f x).2.aio.slot = x.aio.slot) (hmsg : (f x).2.msg = x.msg)
    (hnext : (f x).2.next = x.next) (hop : (f x).2.aio.op = x.aio.op)
    (hP : P (f x).1 ⟨q, p, some (j, (f x).2), l⟩) :
    (logic strict).Spec t (onJob j f) ⟨q, p, some (j, x), l⟩ P := by
  apply spec_edit
  rintro s ans b s' hs hj rfl hf
  rw [onJob, touch_of_owner hj] at hf
  obtain ⟨rfl, rfl⟩ := Prod.mk.inj (Option.some.inj hf)
  exact ⟨(f (s.jobs j)).2, s.heap, s.lost, rfl, hnext, hop,
    hs.custody_setJob (by rw [hslot]; rfl) (by rw [hmsg]; rfl), hs.kept, hP⟩

theorem spec_read {α : Type} (f : Job → α) {P : α → View → Prop}
    (hP : P (f x) ⟨q, p, some (j, x), l⟩) :
    (logic strict).Spec t (read j f) ⟨q, p, some (j, x), l⟩ P :=
  spec_onJob (fun x => (f x, x)) rfl rfl rfl rfl hP

theorem spec_assign (f : Job → Job) {P : Unit → View → Prop}
    (hslot : (f x).aio.slot = x.aio.slot) (hmsg : (f x).msg = x.msg) (hnext : (f x).next = x.next)
    (hop : (f x).aio.op = x.aio.op) (hP : P () ⟨q, p, some (j, f x), l⟩) :
    (logic strict).Spec t (assign j f) ⟨q, p, some (j, x), l⟩ P :=
  spec_onJob (fun x => ((), f x)) hslot hmsg hnext hop hP

theorem spec_takeRes {P : Option Response → View → Prop}
    (hP : P x.httpRes ⟨q, p, some (j, { x with httpRes := none }), l⟩) :
    (logic strict).Spec t (takeRes j) ⟨q, p, some (j, x), l⟩ P :=
  spec_onJob (fun x => (x.httpRes, { x with httpRes := none })) rfl rfl rfl rfl hP

/-- The body is copied into the response, or the call fails. -/
theorem spec_copyData {res : Response} {m : Message} {P : Error → View → Prop}
    (hres : x.httpRes = some res) (hmsg : x.msg = some m)
    (hok : P .success ⟨q, p, some (j, { x with
      httpRes := some { res with data := m.body, source := m.source } }), l⟩)
    (herror : ∀ e : Failure, P e.val ⟨q, p, some (j, x), l⟩) :
    (logic strict).Spec t (copyData j) ⟨q, p, some (j, x), l⟩ P := by
  apply spec_edit
  rintro s ans b s' hs hj rfl hf
  have hneeds : ((s.touch t j).needs t (s.jobs j).httpRes).needs t (s.jobs j).msg = s := by
    rw [touch_of_owner hj, hres, hmsg]
    rfl
  simp only [copyData, hneeds] at hf
  cases ans with
  | error e =>
      obtain ⟨rfl, rfl⟩ := Prod.mk.inj (Option.some.inj hf)
      exact ⟨s.jobs j, s.heap, s.lost, by simp [Shared.edit], rfl, rfl, hs.custody_setJob rfl rfl,
        hs.kept, herror e⟩
  | ok a =>
      obtain ⟨rfl, rfl⟩ := Prod.mk.inj (Option.some.inj hf)
      exact ⟨_, s.heap, s.lost, rfl, rfl, rfl, hs.custody_setJob rfl rfl, hs.kept,
        by simpa [hres, hmsg] using hok⟩

/-- A message that a job has is live. -/
theorem freeMsg_msg (hs : Inv strict s) (hx : s.jobs j = x) :
    s.freeMsg x.msg = { s with heap := without s.heap (x.msg.map Message.ptr) } := by
  cases hm : x.msg with
  | none => rfl
  | some m =>
      have hlive : s.heap m.ptr ≠ none := by
        refine hs.custody.live (p := .msg j) ?_
        simp [held, hx, hm]
      simp [Shared.freeMsg, hlive, without]

theorem spec_dropMsg {P : Unit → View → Prop}
    (hP : P () ⟨q, p, some (j, { x with msg := none }), l⟩) :
    (logic strict).Spec t (dropMsg j) ⟨q, p, some (j, x), l⟩ P := by
  apply spec_edit
  rintro s ans b s' hs hj rfl hf
  rw [dropMsg, touch_of_owner hj, freeMsg_msg hs rfl] at hf
  obtain ⟨rfl, rfl⟩ := Prod.mk.inj (Option.some.inj hf)
  refine ⟨_, _, s.lost, rfl, rfl, rfl, ?_, hs.kept, hP⟩
  rw [held_setJob_msg (by rfl)]
  exact hs.custody.retire (.msg j)

/-- A new message, for a job that has none. -/
theorem spec_allocMsg {size : ℕ} {P : Error → View → Prop} (hmsg : x.msg = none)
    (hok : ∀ m, P .success
      ⟨q, p, some (j, { x with msg := some ⟨m, List.replicate size 0, none⟩ }), l⟩)
    (herror : ∀ e : Failure, P e.val ⟨q, p, some (j, x), l⟩) :
    (logic strict).Spec t (allocMsg j size) ⟨q, p, some (j, x), l⟩ P := by
  apply spec_edit
  rintro s ans b s' hs hj rfl hf
  cases ans with
  | error e =>
      obtain ⟨rfl, rfl⟩ := Prod.mk.inj (Option.some.inj hf)
      exact ⟨s.jobs j, s.heap, s.lost, by simp [Shared.edit], rfl, rfl, hs.custody_setJob rfl rfl,
        hs.kept, herror e⟩
  | ok m =>
      simp only [allocMsg, touch_of_owner hj, hmsg] at hf
      obtain ⟨hfresh, hf⟩ := Option.ite_none_right_eq_some.mp hf
      obtain ⟨rfl, rfl⟩ := Prod.mk.inj (Option.some.inj hf)
      refine ⟨_, _, s.lost, rfl, rfl, rfl, ?_, hs.kept, hok m⟩
      rw [held_setJob_msg (by rfl)]
      exact hs.custody.take_fresh (by simp [held, hmsg]) hfresh ()

theorem spec_fillMsg {data : List UInt8} {m : Message} {P : Unit → View → Prop}
    (hmsg : x.msg = some m) (hP : P () ⟨q, p, some (j, { x with
      msg := some { m with body := data ++ m.body.drop data.length } }), l⟩) :
    (logic strict).Spec t (fillMsg j data) ⟨q, p, some (j, x), l⟩ P := by
  apply spec_edit
  rintro s ans b s' hs hj rfl hf
  have hneeds : (s.touch t j).needs t (s.jobs j).msg = s := by
    rw [touch_of_owner hj, hmsg]
    rfl
  simp only [fillMsg, hneeds] at hf
  obtain ⟨rfl, rfl⟩ := Prod.mk.inj (Option.some.inj hf)
  exact ⟨_, s.heap, s.lost, rfl, rfl, rfl, hs.custody_setJob rfl (by simp [held, hmsg]), hs.kept,
    by simpa [hmsg] using hP⟩

/-- The old context is closed, or the assignment throws. -/
theorem spec_assignCtx {c : Option Context} {P : Error → View → Prop}
    (hok : P .success ⟨q, p, some (j, { x with ctx := c }), l⟩)
    (herror : x.ctx ≠ none → ∀ e : Failure, P e.val ⟨q, p, some (j, x), l⟩) :
    (logic strict).Spec t (assignCtx j c) ⟨q, p, some (j, x), l⟩ P := by
  apply spec_edit
  rintro s ans b s' hs hj rfl hf
  have hcases : b = .success ∧ s' = s.setJob j { s.jobs j with ctx := c } ∨
      (s.jobs j).ctx ≠ none ∧ (∃ e : Failure, b = e.val) ∧ s' = s := by
    unfold assignCtx at hf
    rw [touch_of_owner hj] at hf
    dsimp only at hf
    split at hf
    · rename_i e hctx
      split at hf
      · obtain ⟨rfl, rfl⟩ := Prod.mk.inj (Option.some.inj hf)
        exact .inl ⟨rfl, rfl⟩
      · obtain ⟨rfl, rfl⟩ := Prod.mk.inj (Option.some.inj hf)
        exact .inr ⟨by simp [hctx], ⟨e, rfl⟩, rfl⟩
    · obtain ⟨rfl, rfl⟩ := Prod.mk.inj (Option.some.inj hf)
      exact .inl ⟨rfl, rfl⟩
  obtain ⟨rfl, rfl⟩ | ⟨hctx, ⟨e, rfl⟩, rfl⟩ := hcases
  · exact ⟨_, s.heap, s.lost, rfl, rfl, rfl, hs.custody_setJob rfl rfl, hs.kept, hok⟩
  · exact ⟨s'.jobs j, s'.heap, s'.lost, by simp [Shared.edit], rfl, rfl, hs.custody_setJob rfl rfl,
      hs.kept, herror hctx e⟩

/-- What is in the slot is lost when another message is put there. -/
theorem spec_setMsg {P : Unit → View → Prop} (hempty : strict → x.aio.slot = none)
    (hP : P () ⟨q, p, some (j, { x with msg := none, aio := { x.aio with slot := x.msg } }), l⟩) :
    (logic strict).Spec t (setMsg j) ⟨q, p, some (j, x), l⟩ P := by
  apply spec_edit
  rintro s ans b s' hs hj rfl hf
  rw [setMsg, touch_of_owner hj] at hf
  obtain ⟨rfl, rfl⟩ := Prod.mk.inj (Option.some.inj hf)
  refine ⟨_, s.heap, _, rfl, rfl, rfl, ?_, ?_, hP⟩
  · have hmove := (hs.custody.forget (.slot j)).move (p := .slot j) (q := .msg j) (by simp)
      (update_self ..)
    have hheld : held (s.setJob j { s.jobs j with
        msg := none, aio := { (s.jobs j).aio with slot := (s.jobs j).msg } }) =
        update (update (update (held s) (.slot j) none) (.slot j)
          (update (held s) (.slot j) none (.msg j))) (.msg j) none := by
      rw [held_setJob, update_idem, update_of_ne (by simp)]
      rfl
    rwa [hheld]
  · intro h
    rw [hempty h, Option.map_none, Entrusted.lose_none]
    exact hs.kept h

theorem spec_clearSlot {P : Unit → View → Prop} (hslot : x.aio.slot = none)
    (hP : P () ⟨q, p, some (j, x), l⟩) :
    (logic strict).Spec t (clearSlot j) ⟨q, p, some (j, x), l⟩ P := by
  apply spec_edit
  rintro s ans b s' hs hj rfl hf
  simp only [clearSlot, touch_of_owner hj, hslot, Option.map_none, Entrusted.lose_none] at hf
  obtain ⟨rfl, rfl⟩ := Prod.mk.inj (Option.some.inj hf)
  refine ⟨{ s.jobs j with aio := { (s.jobs j).aio with slot := none } }, s.heap, s.lost, rfl, rfl,
    rfl, hs.custody_setJob (by simp [held, hslot]) rfl, hs.kept, ?_⟩
  rwa [← hslot]

/-- The message goes from the slot to the job, which has none. -/
theorem spec_releaseMsg {P : Unit → View → Prop} (hmsg : x.msg = none)
    (hP : P ()
      ⟨q, p, some (j, { x with msg := x.aio.slot, aio := { x.aio with slot := none } }), l⟩) :
    (logic strict).Spec t (releaseMsg j) ⟨q, p, some (j, x), l⟩ P := by
  apply spec_edit
  rintro s ans b s' hs hj rfl hf
  simp only [releaseMsg, touch_of_owner hj, hmsg, Shared.freeMsg] at hf
  obtain ⟨rfl, rfl⟩ := Prod.mk.inj (Option.some.inj hf)
  refine ⟨_, s.heap, s.lost, rfl, rfl, rfl, ?_, hs.kept, hP⟩
  have hmove := hs.custody.move (p := .msg j) (q := .slot j) (by simp) (by simp [held, hmsg])
  have hheld : held (s.setJob j { s.jobs j with
      msg := (s.jobs j).aio.slot, aio := { (s.jobs j).aio with slot := none } }) =
      update (update (held s) (.msg j) (held s (.slot j))) (.slot j) none := by
    rw [held_setJob, update_comm (by simp)]
    rfl
  rwa [hheld]

end Edit

end Nngpp.Rest
