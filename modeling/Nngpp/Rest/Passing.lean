import Nngpp.Rest.Statements

/-!
The statements by which a job or a request passes from one to another.

A job leaves the freelist in two statements, and comes back in two; in between,
the rest of the list hangs from the job itself. Nobody else sees it then, because
the lock is held. To start an operation is to give up the job and the request at
once, and the answer is the end of the request.
-/

namespace Nngpp.Rest

open Function Lib

variable {strict : Prop} {t : Tid} {s s' : Shared}

/-! ### The lock -/

section Lock

variable {q : Option Req} {p : Option Pending} {w : Option (JobPtr × Job)} {head : Option JobPtr}

/-- The lock is taken or released while the list is whole. -/
theorem inv_setLock (hs : Inv strict s) (hhook : s.hook = none) (x : Option Tid) :
    Inv strict { s with lock := x } where
  custody := hs.custody
  kept := hs.kept
  noFault := hs.noFault
  listed := by
    refine ⟨hs.listed.chain, fun j hj => ?_⟩
    have hj : s.hook = some j := hj
    rw [hhook] at hj
    cases hj
  jobs j := (hs.jobs j).congr rfl rfl rfl (fun _ _ => rfl) fun _ _ => ⟨rfl, rfl⟩
  requests r := (hs.requests r).congr rfl rfl rfl rfl rfl
  exclusive := hs.exclusive

theorem frame_setLock {x : Option Tid} (hlock : ∀ u, u ≠ t → (x = some u ↔ s.lock = some u)) :
    Frame t s { s with lock := x } where
  serving _ _ := rfl
  pending _ _ _ := ⟨Iff.rfl, fun _ => ⟨rfl, rfl, rfl⟩⟩
  job _ _ _ := ⟨Iff.rfl, fun _ => rfl⟩
  list u hu := ⟨hlock u hu, fun _ => ⟨rfl, rfl⟩⟩

theorem spec_lock {P : Unit → View → Prop} (hP : ∀ head, P () ⟨q, p, w, some (head, none)⟩) :
    (logic strict).Spec t lock ⟨q, p, w, none⟩ P := by
  intro s ans b s' hs hsees hf
  obtain ⟨hfree, hf⟩ := Option.ite_none_right_eq_some.mp hf
  obtain ⟨rfl, rfl⟩ := Prod.mk.inj (Option.some.inj hf)
  -- nobody has taken the list apart
  have hhook : s.hook = none := by
    cases hh : s.hook with
    | none => rfl
    | some j =>
        obtain ⟨u, hu, -⟩ := hs.listed.hooked j hh
        rw [hfree] at hu
        cases hu
  refine ⟨inv_setLock hs hhook _, Frame.frames (frame_setLock fun u hu => ?_), _, ?_, hP s.head⟩
  · simp [hfree, Ne.symm hu]
  · refine ⟨hsees.serving, hsees.pending, hsees.job, fun p => ?_⟩
    simp [hhook]

theorem spec_unlock {P : Unit → View → Prop} (hP : P () ⟨q, p, w, none⟩) :
    (logic strict).Spec t unlock ⟨q, p, w, some (head, none)⟩ P := by
  intro s ans b s' hs hsees hf
  obtain ⟨rfl, rfl⟩ := Prod.mk.inj (Option.some.inj hf)
  obtain ⟨hlock, hlist⟩ := (hsees.list _).mp rfl
  have hhook : s.hook = none := congrArg Prod.snd hlist
  refine ⟨inv_setLock hs hhook _, Frame.frames (frame_setLock fun u hu => ?_), _, ?_, hP⟩
  · simp [hlock, Ne.symm hu]
  · refine ⟨hsees.serving, hsees.pending, hsees.job, fun p => ?_⟩
    simp

end Lock

/-! ### The list -/

section List

variable {r : Req} {j : JobPtr} {x : Job} {p : Pending}

/-- The request of an invocation that has no job is the request of no job. -/
theorem Inv.unserved (hs : Inv strict s) (hr : s.stage r = .invocation t)
    (hnone : ∀ i, s.owner i ≠ some (.invocation t)) (i : JobPtr) : s.request i ≠ some r :=
  fun hi => hnone i ((hs.jobs i).of_stage hi hr)

/-- An invocation has taken a job for its request. -/
def Shared.take (s : Shared) (t : Tid) (r : Req) (j : JobPtr) (x : Job)
    (head hook : Option JobPtr) : Shared :=
  { s with
    jobs := update s.jobs j x
    head := head
    hook := hook
    owner := update s.owner j (some (.invocation t))
    request := update s.request j (some r) }

section Take

variable {head hook : Option JobPtr}

theorem inv_take (hs : Inv strict s) (hr : s.stage r = .invocation t)
    (hserving : s.serving t = some r) (hnone : ∀ i, s.owner i ≠ some (.invocation t))
    (hslot : x.aio.slot.map Message.ptr = held s (.slot j))
    (hmsg : x.msg.map Message.ptr = held s (.msg j)) (hop : x.aio.op = none)
    (hlisted : Listed (s.take t r j x head hook)) : Inv strict (s.take t r j x head hook) where
  custody := hs.custody_setJob hslot hmsg
  kept := hs.kept
  noFault := hs.noFault
  listed := hlisted
  jobs i := by
    rcases eq_or_ne i j with rfl | hi
    · exact .invocation t r (update_self ..) (update_self ..) hserving (.inl hr)
        (by simpa [Shared.take] using hop)
    · exact (hs.jobs i).congr (update_of_ne hi ..) (update_of_ne hi ..) (update_of_ne hi ..)
        (fun _ _ => rfl) fun _ _ => ⟨rfl, rfl⟩
  requests r' := (hs.requests r').congr rfl rfl rfl rfl rfl
  exclusive := by
    have hunserved := hs.unserved hr hnone
    intro i k r' hi hk
    rcases eq_or_ne i j with rfl | hij
    · rcases eq_or_ne k i with rfl | hki
      · rfl
      · obtain rfl : r = r' := by simpa [Shared.take] using hi
        exact absurd (by simpa [Shared.take, hki] using hk) (hunserved k)
    · rcases eq_or_ne k j with rfl | hkj
      · obtain rfl : r = r' := by simpa [Shared.take] using hk
        exact absurd (by simpa [Shared.take, hij] using hi) (hunserved i)
      · apply hs.exclusive (r := r')
        · simpa [Shared.take, hij] using hi
        · simpa [Shared.take, hkj] using hk

theorem frame_take (hbefore : ∀ u, s.owner j ≠ some (.invocation u))
    (hlist : ∀ u, u ≠ t → s.lock = some u → head = s.head ∧ hook = s.hook) :
    Frame t s (s.take t r j x head hook) where
  serving _ _ := rfl
  pending _ _ _ := ⟨Iff.rfl, fun _ => ⟨rfl, rfl, rfl⟩⟩
  job u hu i := by
    rcases eq_or_ne i j with rfl | hi
    · simp [Shared.take, hbefore, Ne.symm hu]
    · simp [Shared.take, hi]
  list u hu := ⟨Iff.rfl, hlist u hu⟩

end Take

theorem Listed.free_of_head (h : Listed s) (hhook : s.hook = none) (hhead : s.head = some j) :
    s.owner j = some .free ∧ ∃ l, Chain (fun i => (s.jobs i).next) (s.jobs j).next l ∧ j ∉ l ∧
      ∀ i, i = j ∨ i ∈ l ↔ s.owner i = some .free := by
  obtain ⟨l, hchain, hmem⟩ := h.chain
  rw [Shared.freelist, hhook] at hchain
  dsimp only at hchain
  rw [hhead] at hchain
  obtain ⟨l', rfl, hrest⟩ := hchain.eq_cons
  have hnodup := hchain.nodup
  refine ⟨(hmem j).mp (List.mem_cons_self ..), l', hrest, (List.nodup_cons.mp hnodup).1, ?_⟩
  intro i
  rw [← hmem i, List.mem_cons]

/-- The first job of the list is taken; the rest hangs from it. -/
theorem spec_popHead {head : Option JobPtr} {P : Option JobPtr → View → Prop}
    (hnone : P none ⟨some p.req, some p, none, some (none, none)⟩)
    (hsome : ∀ j x, Idle strict x →
      P (some j) ⟨some p.req, some p, some (j, x), some (none, some j)⟩) :
    (logic strict).Spec t popHead ⟨some p.req, some p, none, some (head, none)⟩ P := by
  intro s ans b s' hs hsees hf
  obtain ⟨hlock, hlist⟩ := (hsees.list _).mp rfl
  obtain ⟨hhead, hhook⟩ := Prod.mk.inj hlist
  obtain ⟨hr, -, -⟩ := (hsees.pending p).mp rfl
  have hserving : s.serving t = some p.req := hsees.serving.symm
  have hjobless := hsees.jobless rfl
  unfold popHead at hf
  rw [hserving] at hf
  cases hj : s.head with
  | none =>
      rw [hj] at hf
      obtain ⟨rfl, rfl⟩ := Prod.mk.inj (Option.some.inj hf)
      obtain rfl : none = head := hj.symm.trans hhead
      exact ⟨hs, fun _ _ _ hu => hu, _, hsees, hnone⟩
  | some j =>
      rw [hj] at hf
      obtain ⟨hfree, l, hchain, hjl, hmem⟩ := hs.listed.free_of_head hhook hj
      obtain ⟨rfl, hs'⟩ := Prod.mk.inj (Option.some.inj hf)
      obtain rfl : s.take t p.req j (s.jobs j) none (some j) = s' := by
        rw [← hs', Shared.take, update_eq_self]
      have hidle := (hs.jobs j).of_free hfree
      refine ⟨?_, ?_, _, ?_, hsome j (s.jobs j) hidle⟩
      · apply inv_take hs hr hserving hjobless rfl rfl hidle.spent.op
        refine ⟨⟨l, ?_, fun i => ?_⟩, ?_⟩
        · simpa [Shared.freelist, Shared.take] using hchain
        · rcases eq_or_ne i j with rfl | hi
          · simp [Shared.take, hjl]
          · simpa [Shared.take, hi] using hmem i
        · intro i hi
          obtain rfl : j = i := Option.some.inj hi
          exact ⟨t, hlock, update_self ..⟩
      · apply Frame.frames
        apply frame_take (by simp [hfree])
        intro u hu hlock'
        exact absurd (Option.some.inj (hlock'.symm.trans hlock)) hu
      · refine ⟨hsees.serving, hsees.pending, ?_, ?_⟩
        · apply sees_job
          · exact update_self ..
          · simp [Shared.take]
          · intro i hi
            by_contra hij
            exact hjobless i (by simpa [Shared.take, hij] using hi)
        · intro p
          simp [Shared.take, hlock]

/-- The first two statements of `rest_get_job`, when there is no free job. -/
theorem spec_makeJob {P : Answer JobPtr → View → Prop}
    (hok : ∀ j, P (.ok j) ⟨some p.req, some p, some (j, {}), none⟩)
    (herror : ∀ e, P (.error e) ⟨some p.req, some p, none, none⟩) :
    (logic strict).Spec t makeJob ⟨some p.req, some p, none, none⟩ P := by
  intro s ans b s' hs hsees hf
  cases ans with
  | error e =>
      obtain ⟨rfl, rfl⟩ := Prod.mk.inj (Option.some.inj hf)
      exact ⟨hs, fun _ _ _ hu => hu, _, hsees, herror e⟩
  | ok j =>
      obtain ⟨hnew, hf⟩ := Option.ite_none_right_eq_some.mp hf
      obtain ⟨hr, -, -⟩ := (hsees.pending p).mp rfl
      have hserving : s.serving t = some p.req := hsees.serving.symm
      have hjobless := hsees.jobless rfl
      obtain ⟨rfl, hs'⟩ := Prod.mk.inj (Option.some.inj hf)
      obtain rfl : s.take t p.req j {} s.head s.hook = s' := by
        rw [← hs', hserving]
        rfl
      have hjob := (hs.jobs j).of_none hnew
      refine ⟨?_, ?_, _, ?_, hok j⟩
      · apply inv_take hs hr hserving hjobless
        · simp [held, hjob]
        · simp [held, hjob]
        · rfl
        · refine hs.listed.congr (fun i => ?_) (fun i => ?_) rfl rfl rfl fun i u _ _ hi => ?_
          · rw [Shared.take, ← hjob, update_eq_self]
          · rcases eq_or_ne i j with rfl | hij
            · simp [Shared.take, hnew]
            · simp [Shared.take, hij]
          · rcases eq_or_ne i j with rfl | hij
            · simp [hnew] at hi
            · simpa [Shared.take, hij] using hi
      · apply Frame.frames
        exact frame_take (by simp [hnew]) fun _ _ _ => ⟨rfl, rfl⟩
      · refine ⟨hsees.serving, hsees.pending, ?_, hsees.list⟩
        apply sees_job
        · exact update_self ..
        · simp [Shared.take]
        · intro i hi
          by_contra hij
          exact hjobless i (by simpa [Shared.take, hij] using hi)

variable {q : Option Req} {w : Option Pending} {head : Option JobPtr}

/-- An invocation that has the lock has changed what follows its job, and the
beginning of the list. -/
def Shared.relink (s : Shared) (j : JobPtr) (x : Job) (head hook : Option JobPtr) : Shared :=
  { s with jobs := update s.jobs j x, head := head, hook := hook }

theorem spec_relink {β : Type} {f : Action β} {l : Option JobPtr × Option JobPtr}
    {P : β → View → Prop}
    (h : ∀ s ans b s', s.owner j = some (.invocation t) → s.jobs j = x → (s.head, s.hook) = l →
      f t ans s = some (b, s') → ∃ next head hook,
        s' = s.relink j { x with next := next } head hook ∧ (hook = none ∨ hook = some j) ∧
        s'.freelist = s.freelist ∧
        P b ⟨q, w, some (j, { x with next := next }), some (head, hook)⟩) :
    (logic strict).Spec t f ⟨q, w, some (j, x), some l⟩ P := by
  intro s ans b s' hs hsees hf
  obtain ⟨hlock, hl⟩ := (hsees.list _).mp rfl
  obtain ⟨hj, rfl⟩ := hsees.own rfl
  obtain ⟨next, head, hook, rfl, hhook, hstart, hP⟩ := h s ans b s' hj rfl hl hf
  refine ⟨⟨hs.custody_setJob rfl rfl, hs.kept, hs.noFault, ⟨?_, ?_⟩, ?_, ?_, hs.exclusive⟩, ?_, _,
    ?_, hP⟩
  · obtain ⟨l, hchain, hmem⟩ := hs.listed.chain
    refine ⟨l, ?_, hmem⟩
    rw [hstart]
    apply hchain.congr
    intro i hi
    have hij : i ≠ j := by
      rintro rfl
      rw [hmem, hj] at hi
      cases hi
    simp [Shared.relink, hij]
  · intro i hi
    refine ⟨t, hlock, ?_⟩
    obtain rfl | rfl := hhook
    · cases hi
    · obtain rfl : j = i := Option.some.inj hi
      exact hj
  · intro i
    rcases eq_or_ne i j with rfl | hi
    · obtain ⟨r, request, serving, stage, op⟩ := (hs.jobs i).of_owner hj
      exact .invocation t r hj request serving stage (by simpa [Shared.relink] using op)
    · exact (hs.jobs i).congr (update_of_ne hi ..) rfl rfl (fun _ _ => rfl) fun _ _ => ⟨rfl, rfl⟩
  · exact fun r => (hs.requests r).congr rfl rfl rfl rfl rfl
  · apply Frame.frames
    refine ⟨fun _ _ => rfl, fun _ _ _ => ⟨Iff.rfl, fun _ => ⟨rfl, rfl, rfl⟩⟩,
      fun u hu i => ⟨Iff.rfl, fun hi => ?_⟩, fun u hu => ⟨Iff.rfl, fun hu' => ?_⟩⟩
    · have hij : i ≠ j := by
        rintro rfl
        exact hu (by simpa [hi] using hj)
      simp [Shared.relink, hij]
    · exact absurd (Option.some.inj (hu'.symm.trans hlock)) hu
  · refine ⟨hsees.serving, hsees.pending, ?_, ?_⟩
    · apply sees_job
      · exact hj
      · simp [Shared.relink]
      · exact fun _ hi => hsees.only rfl hi
    · intro p
      simp [Shared.relink, hlock]

/-- The list begins behind the job again. -/
theorem spec_headFromNext {P : Unit → View → Prop}
    (hP : P () ⟨q, w, some (j, { x with next := none }), some (x.next, none)⟩) :
    (logic strict).Spec t (headFromNext j) ⟨q, w, some (j, x), some (none, some j)⟩ P := by
  apply spec_relink
  rintro s ans b s' hj rfl hl hf
  obtain ⟨hhead, hhook⟩ := Prod.mk.inj hl
  simp only [headFromNext, touch_of_owner hj, hhead, Shared.destroys] at hf
  obtain ⟨rfl, rfl⟩ := Prod.mk.inj (Option.some.inj hf)
  refine ⟨none, (s.jobs j).next, none, rfl, .inl rfl, ?_, hP⟩
  simp [Shared.freelist, hhook]

/-- The list hangs from the job. -/
theorem spec_nextFromHead {P : Unit → View → Prop} (hnext : x.next = none)
    (hP : P () ⟨q, w, some (j, { x with next := head }), some (none, some j)⟩) :
    (logic strict).Spec t (nextFromHead j) ⟨q, w, some (j, x), some (head, none)⟩ P := by
  apply spec_relink
  rintro s ans b s' hj rfl hl hf
  obtain ⟨rfl, hhook⟩ := Prod.mk.inj hl
  simp only [nextFromHead, touch_of_owner hj, hnext, Shared.destroys] at hf
  obtain ⟨rfl, rfl⟩ := Prod.mk.inj (Option.some.inj hf)
  refine ⟨s.head, none, some j, rfl, .inr rfl, ?_, hP⟩
  simp [Shared.freelist, hhook, Shared.setJob]

/-- The job is on the list, and nobody's. -/
theorem spec_headFromJob {P : Unit → View → Prop} (hidle : Idle strict x)
    (hw : ∀ p, w = some p → q = some p.req)
    (hP : P () ⟨q, w.map fun p => { p with recycled := some t }, none, some (some j, none)⟩) :
    (logic strict).Spec t (headFromJob j) ⟨q, w, some (j, x), some (none, some j)⟩ P := by
  intro s ans b s' hs hsees hf
  obtain ⟨hlock, hl⟩ := (hsees.list _).mp rfl
  obtain ⟨hhead, hhook⟩ := Prod.mk.inj hl
  obtain ⟨hj, rfl⟩ := hsees.own rfl
  obtain ⟨r, request, serving, stage, op⟩ := (hs.jobs j).of_owner hj
  simp only [headFromJob, touch_of_owner hj, hhead, Shared.destroys, request] at hf
  obtain ⟨rfl, rfl⟩ := Prod.mk.inj (Option.some.inj hf)
  refine ⟨⟨hs.custody, hs.kept, hs.noFault, ⟨?_, nofun⟩, ?_, ?_, ?_⟩, ?_, _, ?_, hP⟩
  · obtain ⟨l, hchain, hmem⟩ := hs.listed.chain
    refine ⟨j :: l, ?_, fun i => ?_⟩
    · apply Chain.cons
      simpa [Shared.freelist, hhook] using hchain
    · rcases eq_or_ne i j with rfl | hi
      · simp
      · simpa [hi] using hmem i
  · intro i
    rcases eq_or_ne i j with rfl | hi
    · exact .free (update_self ..) hidle (update_self ..)
    · exact (hs.jobs i).congr rfl (update_of_ne hi ..) (update_of_ne hi ..) (fun _ _ => rfl)
        fun _ _ => ⟨rfl, rfl⟩
  · intro r'
    rcases eq_or_ne r' r with rfl | hr
    · -- the request of the job, whether it is answered already or not
      cases hs.requests r' with
      | new stage' =>
          rw [stage'] at stage
          obtain stage | stage := stage <;> cases stage
      | invocation u stage' log recycled =>
          have hu : u = t := by
            rw [stage'] at stage
            obtain stage | stage := stage
            · exact Stage.invocation.inj stage
            · cases stage
          refine .invocation u stage' log fun v hv => ?_
          rw [hu]
          simpa using hv.symm
      | operation i stage' =>
          rw [stage'] at stage
          obtain stage | stage := stage <;> cases stage
      | answered f stage' log settled => exact .answered f stage' log settled
    · exact (hs.requests r').congr rfl rfl rfl rfl (update_of_ne hr ..)
  · intro i k r' hi hk
    have hij : i ≠ j := by rintro rfl; simp at hi
    have hkj : k ≠ j := by rintro rfl; simp at hk
    apply hs.exclusive (r := r')
    · simpa [hij] using hi
    · simpa [hkj] using hk
  · apply Frame.frames
    refine ⟨fun _ _ => rfl, fun u hu r' => ⟨Iff.rfl, fun hr' => ⟨rfl, rfl, ?_⟩⟩,
      fun u hu i => ⟨?_, fun _ => rfl⟩, fun u hu => ⟨Iff.rfl, fun hu' => ?_⟩⟩
    · have hne : r' ≠ r := by
        rintro rfl
        rw [hr'] at stage
        obtain stage | stage := stage
        · exact hu (Stage.invocation.inj stage)
        · cases stage
      exact update_of_ne hne ..
    · rcases eq_or_ne i j with rfl | hi
      · simp [hj, Ne.symm hu]
      · simp [hi]
    · exact absurd (Option.some.inj (hu'.symm.trans hlock)) hu
  · refine ⟨hsees.serving, ?_, ?_, ?_⟩
    · cases w with
      | none => exact sees_settled (hsees.settled rfl)
      | some p =>
          obtain ⟨hp, houtput, hreply, -⟩ := (hsees.pending p).mp rfl
          have hq : q = some r := hsees.serving.trans serving
          obtain rfl : p.req = r := Option.some.inj ((hw p rfl).symm.trans hq)
          exact sees_pending hp houtput hreply (update_self ..) fun _ hr =>
            hsees.pending_only rfl hr
    · apply sees_jobless
      intro i hi
      rcases eq_or_ne i j with rfl | hij
      · simp at hi
      · exact hij (hsees.only rfl (by simpa [hij] using hi))
    · intro p
      simp [hlock]

end List

/-! ### The request -/

section Request

variable {q : Option Req} {p : Pending} {w : Option (JobPtr × Job)}
  {l : Option (Option JobPtr × Option JobPtr)}

theorem spec_setOutput {res : Option Response} {P : Error → View → Prop}
    (hok : P .success ⟨q, some { p with output := res }, w, l⟩)
    (herror : ∀ e : Failure, P e.val ⟨q, some p, w, l⟩) :
    (logic strict).Spec t (setOutput (some p.req) res) ⟨q, some p, w, l⟩ P := by
  intro s ans b s' hs hsees hf
  cases ans with
  | error e =>
      obtain ⟨rfl, rfl⟩ := Prod.mk.inj (Option.some.inj hf)
      exact ⟨hs, fun _ _ _ hu => hu, _, hsees, herror e⟩
  | ok a =>
      obtain ⟨rfl, rfl⟩ := Prod.mk.inj (Option.some.inj hf)
      obtain ⟨hr, -, hreply, hrecycled⟩ := (hsees.pending p).mp rfl
      refine ⟨⟨hs.custody, hs.kept, hs.noFault, ⟨hs.listed.chain, hs.listed.hooked⟩, ?_, ?_,
        hs.exclusive⟩, ?_, _, ?_, hok⟩
      · exact fun j => (hs.jobs j).congr rfl rfl rfl (fun _ _ => rfl) fun _ _ => ⟨rfl, rfl⟩
      · intro r
        rcases eq_or_ne r p.req with rfl | hne
        · cases hs.requests p.req with
          | new stage => rw [stage] at hr; cases hr
          | invocation u stage log recycled => exact .invocation u stage log recycled
          | operation j stage => rw [stage] at hr; cases hr
          | answered f stage => rw [stage] at hr; cases hr
        · exact (hs.requests r).congr rfl rfl (update_of_ne hne ..) rfl rfl
      · apply Frame.frames
        refine ⟨fun _ _ => rfl, fun u hu r => ⟨Iff.rfl, fun hru => ⟨?_, rfl, rfl⟩⟩,
          fun _ _ _ => ⟨Iff.rfl, fun _ => rfl⟩, fun _ _ => ⟨Iff.rfl, fun _ => ⟨rfl, rfl⟩⟩⟩
        have hne : r ≠ p.req := by
          rintro rfl
          exact hu (Stage.invocation.inj (hru.symm.trans hr))
        exact update_of_ne hne ..
      · refine ⟨hsees.serving, ?_, hsees.job, hsees.list⟩
        exact sees_pending (p := { p with output := res }) hr (update_self ..) hreply hrecycled
          fun _ hr' => hsees.pending_only rfl hr'

/-- The request is answered. -/
theorem spec_finish {e : Error} {P : Unit → View → Prop}
    (hsettled : Settled p.req p.reply ⟨p.req, e, p.output⟩) (hP : P () ⟨q, none, w, l⟩) :
    (logic strict).Spec t (finish (some p.req) e) ⟨q, some p, w, l⟩ P := by
  intro s ans b s' hs hsees hf
  obtain ⟨rfl, rfl⟩ := Prod.mk.inj (Option.some.inj hf)
  obtain ⟨hr, houtput, hreply, -⟩ := (hsees.pending p).mp rfl
  refine ⟨⟨hs.custody, hs.kept, hs.noFault, ⟨hs.listed.chain, hs.listed.hooked⟩, ?_, ?_,
    hs.exclusive⟩, ?_, _, ?_, hP⟩
  · intro j
    -- the request of a job that somebody else has is not this one
    cases hs.jobs j with
    | new owner job request => exact .new owner job request
    | free owner idle request => exact .free owner idle request
    | operation r owner request stage reply awaits =>
        have hne : r ≠ p.req := by rintro rfl; rw [hr] at stage; cases stage
        exact .operation r owner request (by simpa [hne] using stage) reply awaits
    | invocation u r owner request serving stage op =>
        refine .invocation u r owner request serving ?_ op
        rcases eq_or_ne r p.req with rfl | hne
        · simp
        · simpa [hne] using stage
  · intro r
    rcases eq_or_ne r p.req with rfl | hne
    · refine .answered ⟨p.req, e, p.output⟩ (update_self ..) ?_ (hreply.symm ▸ hsettled)
      have hlog : s.log.filter (fun f => f.req = p.req) = [] :=
        (hs.requests p.req).unanswered (by simp [hr])
      simp [answers, List.filter_append, hlog, houtput]
    · refine (hs.requests r).congr (update_of_ne hne ..) ?_ rfl rfl rfl
      simp [answers, List.filter_append, Ne.symm hne]
  · apply Frame.frames
    refine ⟨fun _ _ => rfl, fun u hu r => ⟨?_, fun _ => ⟨rfl, rfl, rfl⟩⟩,
      fun _ _ _ => ⟨Iff.rfl, fun _ => rfl⟩, fun _ _ => ⟨Iff.rfl, fun _ => ⟨rfl, rfl⟩⟩⟩
    rcases eq_or_ne r p.req with rfl | hne
    · simp [hr, Ne.symm hu]
    · simp [hne]
  · refine ⟨hsees.serving, sees_settled fun r hr' => ?_, hsees.job, hsees.list⟩
    rcases eq_or_ne r p.req with rfl | hne
    · simp at hr'
    · exact hne (hsees.pending_only rfl (by simpa [hne] using hr'))

/-- The job and the request are the operation's from here on. -/
theorem spec_start {op : Option Context → Operation} {r : Req} {j : JobPtr} {x : Job}
    {P : Unit → View → Prop}
    (hawaits : Awaits r { x with aio := { x.aio with op := some (op x.ctx) } })
    (hP : P () ⟨some r, none, none, none⟩) :
    (logic strict).Spec t (start j op) ⟨some r, some (.open r none), some (j, x), none⟩ P := by
  intro s ans b s' hs hsees hf
  obtain ⟨hj, rfl⟩ := hsees.own rfl
  obtain ⟨hr, houtput, hreply, hrecycled⟩ := (hsees.pending _).mp rfl
  obtain ⟨r', request, serving, stage, hop⟩ := (hs.jobs j).of_owner hj
  obtain rfl : r = r' := Option.some.inj (hsees.serving.trans serving)
  have hr : s.stage r = .invocation t := hr
  have hneeds : (s.touch t j).needs t (s.jobs j).ctx = s := by
    obtain ⟨c, -, hctx, -⟩ := hawaits.started
    have hctx : (s.jobs j).ctx = some c := hctx
    rw [touch_of_owner hj, hctx]
    rfl
  simp only [start, hneeds, request, Shared.moveStage] at hf
  obtain ⟨rfl, rfl⟩ := Prod.mk.inj (Option.some.inj hf)
  have hlog : answers s r = [] := (hs.requests r).unanswered (by simp [hr])
  refine ⟨⟨hs.custody_setJob rfl rfl, hs.kept, hs.noFault, ?_, ?_, ?_, hs.exclusive⟩, ?_, _, ?_, hP⟩
  · refine hs.listed.congr (fun i => ?_) (fun i => ?_) rfl rfl rfl fun i u _ hu hi => ?_
    · rcases eq_or_ne i j with rfl | hij
      · simp [Shared.setJob]
      · simp [Shared.setJob, hij]
    · rcases eq_or_ne i j with rfl | hij
      · simp [hj]
      · simp [hij]
    · rcases eq_or_ne i j with rfl | hij
      · -- the invocation does not have the lock
        obtain rfl : t = u := by simpa [hj] using hi
        exact absurd hu (hsees.unlocked rfl)
      · simpa [hij] using hi
  · intro i
    rcases eq_or_ne i j with rfl | hij
    · refine .operation r (update_self ..) request (update_self ..) hreply ?_
      simpa [Shared.setJob] using hawaits
    · refine (hs.jobs i).congr (update_of_ne hij ..) (update_of_ne hij ..) rfl (fun _ _ => rfl)
        fun r' hr' => ⟨?_, rfl⟩
      have hne : r' ≠ r := by
        rintro rfl
        exact hij (hs.exclusive hr' request)
      exact update_of_ne hne ..
  · intro r'
    rcases eq_or_ne r' r with rfl | hne
    · exact .operation j (update_self ..) hlog houtput hrecycled
    · exact (hs.requests r').congr (update_of_ne hne ..) rfl rfl rfl rfl
  · apply Frame.frames
    refine ⟨fun _ _ => rfl, fun u hu r' => ⟨?_, fun _ => ⟨rfl, rfl, rfl⟩⟩,
      fun u hu i => ⟨?_, fun hi => ?_⟩, fun _ _ => ⟨Iff.rfl, fun _ => ⟨rfl, rfl⟩⟩⟩
    · rcases eq_or_ne r' r with rfl | hne
      · simp [hr, Ne.symm hu]
      · simp [Shared.setJob, hne]
    · rcases eq_or_ne i j with rfl | hij
      · simp [hj, Ne.symm hu]
      · simp [hij]
    · have hij : i ≠ j := by
        rintro rfl
        exact hu (by simpa [hi] using hj)
      exact update_of_ne hij ..
  · refine ⟨hsees.serving, sees_settled fun r' hr' => ?_, sees_jobless fun i hi => ?_, hsees.list⟩
    · rcases eq_or_ne r' r with rfl | hne
      · simp at hr'
      · exact hne (hsees.pending_only rfl (by simpa [Shared.setJob, hne] using hr'))
    · rcases eq_or_ne i j with rfl | hij
      · simp at hi
      · exact hij (hsees.only rfl (by simpa [hij] using hi))

end Request

end Nngpp.Rest
