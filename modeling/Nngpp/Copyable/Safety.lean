import Nngpp.Copyable.Model

/-!
Single ownership of the copyable handles over whole runs.

`Sound` is what the classes are meant to keep: custody of the handles, and no
free of a handle that is not live. Each operation is first described by the
state it leaves (`leaves_*`); the step lemma then reads the rules of `Custody`
off these descriptions.

One exit of one operation does not keep it. The copy assignment frees its own
handle before it asks nng for the copy, and does not forget it: when nng refuses,
the object goes on naming a handle that has been given back. `FailsOver` is that
exit, and `sound_step` says that it is the only one.
-/

namespace Nngpp.Copyable

open Function Lib

variable {O H C : Type}

/-- Each object is null or holds a live handle, no two hold the same, and nothing
was freed that was not live. -/
structure Sound (w : World O H C) : Prop where
  custody : Custody (Pointer.get w.obj) w.heap
  noFault : w.faults = []

/-- A copy assignment between two objects, over a handle, which nng refuses. -/
def FailsOver (w : World O H C) : Op O H C → Prop
  | .copyAssign this rhs (.error _) => this ≠ rhs ∧ Pointer.get w.obj this ≠ none
  | _ => False

theorem sound_init (heap : H → Option C) : Sound (World.init heap : World O H C) where
  custody := Custody.empty heap
  noFault := rfl

theorem World.free_of_live [DecidableEq H] {w : World O H C} {h : H} (hlive : w.heap h ≠ none) :
    w.free h = { w with heap := update w.heap h none } := by
  simp [World.free, hlive]

theorem World.freeIf_obj [DecidableEq H] (w : World O H C) (p : Option H) :
    (w.freeIf p).obj = w.obj := by
  cases p with
  | none => rfl
  | some h => simp only [World.freeIf, World.free]; split <;> rfl

variable [DecidableEq O]

/-! ### What each operation leaves -/

section Leaves

variable (n : Names) (w : World O H C)

theorem leaves_construct_ok {this : O} {body : Call O H C Unit} {w' : World O H C}
    (h : body.run { w with obj := Pointer.default w.obj this } = .ok () w') :
    leaves (construct this body) w = w' := by
  refine leaves_of_ok (a := ()) ?_
  simp [construct, h]

/-- A constructor whose body throws at once leaves nothing behind. -/
theorem leaves_construct_error {this : O} {body : Call O H C Unit} {e : Exception}
    (hthis : w.obj this = none)
    (h : body.run { w with obj := Pointer.default w.obj this } =
      .error e { w with obj := Pointer.default w.obj this }) :
    leaves (construct this body) w = w := by
  have herase : update (Pointer.default w.obj this) this none = w.obj := by
    simp [Pointer.default, ← hthis]
  refine leaves_of_error (e := e) ?_
  simp [construct, h, herase]

variable [DecidableEq H]

theorem leaves_acquire_ok (this : O) (h : H) (c : C) :
    leaves (acquire n this (.ok (h, c))) w =
      { w with heap := update w.heap h (some c), obj := update w.obj this (some (some h)) } := by
  refine leaves_construct_ok w ?_
  simp [nngAcquire, Pointer.default]

theorem leaves_acquire_error {this : O} (hthis : w.obj this = none) (e : Failure) :
    leaves (acquire n this (.error e)) w = w := by
  refine leaves_construct_error w (e := ⟨e.val, n.acquire⟩) hthis ?_
  simp [nngAcquire]

theorem leaves_copyCtor_ok {this rhs : O} (hne : rhs ≠ this) (h : H) :
    leaves (copyCtor n this rhs (.ok h)) w =
      { w with
        heap := update w.heap h ((Pointer.get w.obj rhs).bind w.heap)
        obj := update w.obj this (some (some h)) } := by
  refine leaves_construct_ok w ?_
  simp [nngDup, field, Pointer.default, hne]

theorem leaves_copyCtor_error {this rhs : O} (hthis : w.obj this = none) (e : Failure) :
    leaves (copyCtor n this rhs (.error e)) w = w := by
  refine leaves_construct_error w (e := ⟨e.val, n.copyCtor⟩) hthis ?_
  simp [nngDup, field]

theorem leaves_copyAssign_self (this : O) (ans : Answer H) :
    leaves (copyAssign n this this ans) w = w := by
  refine leaves_of_ok (a := ()) ?_
  simp [copyAssign]

theorem leaves_copyAssign_ok {this rhs : O} (hne : this ≠ rhs) (h : H) :
    leaves (copyAssign n this rhs (.ok h)) w =
      let v := w.freeIf (Pointer.get w.obj this)
      { v with
        heap := update v.heap h ((Pointer.get v.obj rhs).bind v.heap)
        obj := update v.obj this (some (some h)) } := by
  refine leaves_of_ok (a := ()) ?_
  simp [copyAssign, hne, nngDup, field]

theorem leaves_copyAssign_error {this rhs : O} (hne : this ≠ rhs) (e : Failure) :
    leaves (copyAssign n this rhs (.error e)) w = w.freeIf (Pointer.get w.obj this) := by
  refine leaves_of_error (e := ⟨e.val, n.copyAssign⟩) ?_
  simp [copyAssign, hne, nngDup, field]

end Leaves

variable [DecidableEq H]

/-! ### Freeing -/

omit [DecidableEq O] in
/-- Freeing a live handle that no object holds is sound. -/
theorem Sound.free {w : World O H C} (hw : Sound w) {h : H} (hlive : w.heap h ≠ none)
    (hfree : ∀ o, Pointer.get w.obj o ≠ some h) : Sound (w.free h) := by
  rw [World.free_of_live hlive]
  exact ⟨hw.custody.free hfree, hw.noFault⟩

omit [DecidableEq O] in
theorem Sound.freeIf {w : World O H C} (hw : Sound w) {p : Option H}
    (hp : ∀ h, p = some h → w.heap h ≠ none ∧ ∀ o, Pointer.get w.obj o ≠ some h) :
    Sound (w.freeIf p) := by
  cases p with
  | none => exact hw
  | some h => exact hw.free (hp h rfl).1 (hp h rfl).2

/-- The copy assignment, once it has given its own handle back. -/
theorem Sound.freeOwn {w : World O H C} (hw : Sound w) (this : O) :
    Custody (update (Pointer.get w.obj) this none) (w.freeIf (Pointer.get w.obj this)).heap ∧
      (w.freeIf (Pointer.get w.obj this)).faults = [] := by
  cases hm : Pointer.get w.obj this with
  | none => exact ⟨hw.custody.drop this, hw.noFault⟩
  | some h =>
      have hlive := hw.custody.live hm
      simp only [World.freeIf, World.free_of_live hlive]
      exact ⟨hw.custody.give_back hm, hw.noFault⟩

/-! ### The step lemma -/

/-- The copy assignment which nng grants. -/
theorem sound_copyAssign_ok (n : Names) {w : World O H C} (hw : Sound w) {this rhs : O} {h : H}
    (hne : this ≠ rhs) (hsrc : Pointer.get w.obj rhs ≠ none)
    (hfresh : (w.freeIf (Pointer.get w.obj this)).heap h = none) :
    Sound (leaves (copyAssign n this rhs (.ok h)) w) := by
  obtain ⟨hcustody, hfaults⟩ := hw.freeOwn this
  rw [leaves_copyAssign_ok n w hne]
  obtain ⟨src, hsrc⟩ := Option.ne_none_iff_exists'.mp hsrc
  -- the source is at another place, so freeing the destination has not touched it
  have hlive : (w.freeIf (Pointer.get w.obj this)).heap src ≠ none :=
    hcustody.live (p := rhs) (by rw [update_of_ne (Ne.symm hne), hsrc])
  obtain ⟨c, hc⟩ := Option.ne_none_iff_exists'.mp hlive
  refine ⟨?_, hfaults⟩
  have htake := hcustody.take_fresh (p := this) hfresh c
  simpa [World.freeIf_obj, hsrc, hc] using htake

/-- An enabled operation keeps soundness exactly when it is not a refused copy
assignment over a handle. -/
theorem sound_step (n : Names) {w : World O H C} (hw : Sound w) {op : Op O H C}
    (hop : Enabled w op) : Sound (exec n w op) ↔ ¬ FailsOver w op := by
  unfold exec
  cases op with
  | default this =>
      simp only [FailsOver, not_false_eq_true, iff_true]
      exact ⟨Pointer.custody_default hw.custody this, hw.noFault⟩
  | acquire this ans =>
      simp only [FailsOver, not_false_eq_true, iff_true, Op.call]
      obtain ⟨hthis, hfresh⟩ := hop
      match ans with
      | .error e => rwa [leaves_acquire_error n w hthis]
      | .ok (h, c) =>
          rw [leaves_acquire_ok]
          refine ⟨?_, hw.noFault⟩
          simpa using hw.custody.take_fresh (p := this) (hfresh h c rfl) c
  | adopt this p =>
      simp only [FailsOver, not_false_eq_true, iff_true]
      exact ⟨Pointer.custody_adopt hw.custody hop.2, hw.noFault⟩
  | copyCtor this rhs ans =>
      simp only [FailsOver, not_false_eq_true, iff_true, Op.call]
      obtain ⟨hthis, hsrc, hfresh⟩ := hop
      match ans with
      | .error e => rwa [leaves_copyCtor_error n w hthis]
      | .ok h =>
          have hne : rhs ≠ this := by rintro rfl; simp [Pointer.get, hthis] at hsrc
          obtain ⟨src, hsrc⟩ := Option.ne_none_iff_exists'.mp hsrc
          obtain ⟨c, hc⟩ := Option.ne_none_iff_exists'.mp (hw.custody.live hsrc)
          rw [leaves_copyCtor_ok n w hne]
          refine ⟨?_, hw.noFault⟩
          simpa [hsrc, hc] using hw.custody.take_fresh (p := this) (hfresh h rfl) c
  | copyAssign this rhs ans =>
      obtain ⟨-, hsrc, hfresh⟩ := hop
      rcases eq_or_ne this rhs with rfl | hne
      · have hfails : ¬ FailsOver w (.copyAssign this this ans) := by
          cases ans <;> simp [FailsOver]
        simpa only [Op.call, leaves_copyAssign_self, hfails, not_false_eq_true, iff_true] using hw
      · cases ans with
        | ok h =>
            simp only [FailsOver, not_false_eq_true, iff_true]
            exact sound_copyAssign_ok n hw hne hsrc (hfresh hne h rfl)
        | error e =>
            simp only [Op.call, leaves_copyAssign_error n w hne, FailsOver, ne_eq, hne,
              not_false_eq_true, true_and, not_not]
            constructor
            · intro hsound
              by_contra hm
              obtain ⟨h, hm⟩ := Option.ne_none_iff_exists'.mp hm
              -- the object still names the handle it has just freed
              refine hsound.custody.live (p := this) (t := h) ?_ ?_
              · rw [World.freeIf_obj, hm]
              · simp [hm, World.freeIf, World.free_of_live (hw.custody.live hm)]
            · intro hm
              simpa [hm, World.freeIf] using hw
  | moveCtor this rhs =>
      simp only [FailsOver, not_false_eq_true, iff_true]
      have hne : this ≠ rhs := by rintro rfl; exact hop.2 hop.1
      exact ⟨Pointer.custody_moveCtor hw.custody hne, hw.noFault⟩
  | moveAssign this rhs =>
      simp only [FailsOver, not_false_eq_true, iff_true]
      refine Sound.freeIf (w := { w with obj := _ }) ?_ fun h hh =>
        Pointer.moveAssign_frees hw.custody hh
      exact ⟨Pointer.custody_moveAssign hw.custody this rhs, hw.noFault⟩
  | destroy this =>
      simp only [FailsOver, not_false_eq_true, iff_true]
      refine Sound.freeIf (w := { w with obj := _ }) ?_ fun h hh =>
        Pointer.destroy_frees hw.custody hh
      exact ⟨Pointer.custody_destroy hw.custody this, hw.noFault⟩
  | release this =>
      simp only [FailsOver, not_false_eq_true, iff_true]
      exact ⟨Pointer.custody_release hw.custody this, hw.noFault⟩
  | handOut h c =>
      simp only [FailsOver, not_false_eq_true, iff_true]
      exact ⟨hw.custody.alloc h c, hw.noFault⟩
  | freeOwn h =>
      simp only [FailsOver, not_false_eq_true, iff_true]
      exact hw.free hop.1 hop.2

/-! ### Whole runs -/

/-- The states of a run are all sound exactly when none of its steps is a refused
copy assignment over a handle. -/
theorem sound_run_iff (n : Names) {heap : H → Option C}
    {tr : List (Transition (World O H C) (Op O H C))}
    {w : World O H C} (run : Run (Step n) (World.init heap) tr w) :
    (∀ e ∈ tr, Sound e.post) ↔ ∀ e ∈ tr, ¬ FailsOver e.pre e.label := by
  refine run.forall_post_iff (sound_init heap) ?_
  rintro w op w' hw ⟨hop, rfl⟩
  exact sound_step n hw hop

/-- Runs over messages and runs over URLs keep single ownership exactly when no
copy assignment over a handle is refused. -/
theorem single_ownership_iff {heap : H → Option C}
    {tr : List (Transition (World O H C) (Op O H C))} {w : World O H C} :
    (Run (Step msgNames) (World.init heap) tr w →
      ((∀ e ∈ tr, Sound e.post) ↔ ∀ e ∈ tr, ¬ FailsOver e.pre e.label)) ∧
    (Run (Step urlNames) (World.init heap) tr w →
      ((∀ e ∈ tr, Sound e.post) ↔ ∀ e ∈ tr, ¬ FailsOver e.pre e.label)) :=
  ⟨sound_run_iff msgNames, sound_run_iff urlNames⟩

/-- A message, or a URL, is made and destroyed. -/
theorem single_ownership_one :
    let ops : List (Op ℕ ℕ Unit) := [.acquire 0 (.ok (1, ())), .destroy 0]
    (∀ e ∈ Run.trace (exec msgNames) (World.init fun _ => none) ops, Sound e.post) ∧
      ∀ e ∈ Run.trace (exec urlNames) (World.init fun _ => none) ops, Sound e.post := by
  intro ops
  have allowed (n : Names) :
      Run.AllEnabled Enabled (exec n) (World.init fun _ => none) ops :=
    ⟨⟨rfl, fun h c hc => by cases hc; rfl⟩, nofun, trivial⟩
  refine ⟨(single_ownership_iff.1 (Run.of_exec (allowed _))).mpr ?_,
    (single_ownership_iff.2 (Run.of_exec (allowed _))).mpr ?_⟩ <;>
    simp [ops, Run.trace, FailsOver]

/-- Two objects, the second assigned to the first when nng has no memory for the
copy, and the first destroyed. -/
def refusedCopy : List (Op ℕ ℕ Unit) :=
  [.acquire 0 (.ok (1, ())), .acquire 1 (.ok (2, ())),
    .copyAssign 0 1 (.error ⟨.nomem, by decide⟩), .destroy 0]

/-- The state the objects are left in by `refusedCopy`. -/
def afterRefusedCopy (n : Names) : World ℕ ℕ Unit :=
  refusedCopy.foldl (exec n) (World.init fun _ => none)

theorem refusedCopy_unsound (n : Names) :
    ∃ tr, Run (Step n) (World.init fun _ => none) tr (afterRefusedCopy n) ∧
      ∃ e ∈ tr, ¬ Sound e.post := by
  have hall : Run.AllEnabled Enabled (exec n) (World.init fun _ => none) refusedCopy :=
    ⟨⟨rfl, fun h c hc => by cases hc; rfl⟩, ⟨rfl, fun h c hc => by cases hc; rfl⟩,
      ⟨nofun, nofun, fun _ h hh => by cases hh⟩, nofun, trivial⟩
  refine ⟨_, Run.of_exec hall, ⟨_, _, afterRefusedCopy n⟩, .tail _ (.tail _ (.tail _ (.head _))), ?_⟩
  exact fun hsound => List.cons_ne_nil 1 [] hsound.noFault

/-- The handle of the first object is freed by the assignment, and again by the
destructor. -/
theorem refusedCopy_frees_twice :
    (afterRefusedCopy msgNames).faults = [1] ∧ (afterRefusedCopy urlNames).faults = [1] ∧
      (¬ ∀ (tr : List (Transition (World ℕ ℕ Unit) (Op ℕ ℕ Unit))) (w : World ℕ ℕ Unit),
        Run (Step msgNames) (World.init fun _ => none) tr w → ∀ e ∈ tr, Sound e.post) ∧
      ¬ ∀ (tr : List (Transition (World ℕ ℕ Unit) (Op ℕ ℕ Unit))) (w : World ℕ ℕ Unit),
        Run (Step urlNames) (World.init fun _ => none) tr w → ∀ e ∈ tr, Sound e.post := by
  refine ⟨rfl, rfl, fun hall => ?_, fun hall => ?_⟩
  · obtain ⟨tr, run, e, he, hbad⟩ := refusedCopy_unsound msgNames
    exact hbad (hall tr _ run e he)
  · obtain ⟨tr, run, e, he, hbad⟩ := refusedCopy_unsound urlNames
    exact hbad (hall tr _ run e he)

end Nngpp.Copyable
