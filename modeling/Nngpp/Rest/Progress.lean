import Nngpp.Rest.Bodies

/-!
The proxy never gets stuck.

Only the lock makes an invocation wait, and who has it can go on. A request that
waits for an operation waits for one that is under way (`Placed`). So when no
invocation can go on and no operation is under way, nothing is left to do: every
request that came in is answered, and every job is on the freelist.
-/

namespace Nngpp.Rest

open Function Lib

variable {strict : Prop} {t : Tid} {s s' : Shared}

/-! ### Requests that wait -/

/-- A request waits for the operation of its own job. -/
def Placed (s : Shared) : Prop :=
  ∀ r j, s.stage r = .operation j → s.request j = some r ∧ s.owner j = some .operation

theorem Placed.congr (h : Placed s) (hstage : s'.stage = s.stage)
    (hkept : ∀ j, s.owner j = some .operation →
      s'.request j = s.request j ∧ s'.owner j = s.owner j) : Placed s' := by
  intro r j hr
  obtain ⟨hrequest, howner⟩ := h r j (hstage ▸ hr)
  obtain ⟨hreq, hown⟩ := hkept j howner
  exact ⟨hreq.trans hrequest, hown.trans howner⟩

theorem Placed.same (h : Placed s) (hsame : Same s s') : Placed s' :=
  h.congr hsame.stage fun j _ => ⟨congrFun hsame.request j, congrFun hsame.owner j⟩

/-- Nobody has taken a job from an operation. -/
theorem Placed.of_moves {start : Option Start} (h : Placed s) (hmoves : Moves t start s s') :
    Placed s' := by
  have hother : ∀ {i j : JobPtr}, s.owner i = some .operation → s.owner j ≠ some .operation →
      i ≠ j := by
    rintro i j hi hj rfl
    exact hj hi
  cases hmoves with
  | stays same => exact h.same same
  | edits j x owner op same =>
      refine Placed.same ?_ same
      exact h.congr rfl fun _ _ => ⟨rfl, rfl⟩
  | takes j owner same =>
      refine Placed.same ?_ same
      refine h.congr rfl fun i hi => ?_
      have hne := hother hi owner
      exact ⟨update_of_ne hne .., update_of_ne hne ..⟩
  | gives j owner same =>
      refine Placed.same ?_ same
      refine h.congr rfl fun i hi => ?_
      have hne : i ≠ j := hother hi (by simp [owner])
      exact ⟨update_of_ne hne .., update_of_ne hne ..⟩
  | starts o j x c ho owner op slot same =>
      refine Placed.same ?_ same
      intro r i hr
      cases hrequest : s.request j with
      | none =>
          rw [hrequest] at hr
          obtain ⟨hreq, hown⟩ := h r i hr
          have hne : i ≠ j := hother hown (by simp [owner])
          exact ⟨hreq, (update_of_ne hne ..).trans hown⟩
      | some r' =>
          rw [hrequest] at hr
          by_cases hrr : r = r'
          · subst hrr
            -- the request goes to the job that starts the operation
            obtain rfl : j = i := by simpa [Shared.moveStage, Shared.setJob] using hr
            exact ⟨hrequest, update_self ..⟩
          · obtain ⟨hreq, hown⟩ := h r i (by simpa [Shared.moveStage, Shared.setJob, hrr] using hr)
            have hne : i ≠ j := hother hown (by simp [owner])
            exact ⟨hreq, (update_of_ne hne ..).trans hown⟩
  | finishes r same =>
      refine Placed.same ?_ same
      intro r' i hr
      by_cases hrr : r' = r
      · subst hrr
        simp at hr
      · exact h r' i (by simpa [hrr] using hr)

/-- A request that has come stays so. -/
theorem Moves.came {start : Option Start} (hmoves : Moves t start s s') {r : Req}
    (hr : s.stage r ≠ .new) : s'.stage r ≠ .new := by
  cases hmoves with
  | stays same => rwa [same.stage]
  | edits j x owner op same => rwa [same.stage]
  | takes j owner same => rwa [same.stage]
  | gives j owner same => rwa [same.stage]
  | starts o j x c ho owner op slot same =>
      rw [same.stage]
      cases s.request j with
      | none => exact hr
      | some r' =>
          by_cases hrr : r = r'
          · subst hrr
            simp [Shared.moveStage]
          · simpa [Shared.moveStage, Shared.setJob, hrr] using hr
  | finishes r' same =>
      rw [same.stage]
      by_cases hrr : r = r'
      · subst hrr
        simp
      · simpa [hrr] using hr

/-! ### Completions -/

/-- The operation on a job is over. -/
structure Completes (j : JobPtr) (s s' : Shared) : Prop where
  owner : s'.owner = s.owner
  request : s'.request = s.request
  stage : s'.stage = s.stage
  lock : s'.lock = s.lock
  ended : (s'.jobs j).aio.op = none
  others : ∀ i, i ≠ j → (s'.jobs i).aio.op = (s.jobs i).aio.op
  state : ∀ i, (s'.jobs i).state = (s.jobs i).state

section Completions

variable {j : JobPtr} {r : Req}

theorem completes_setJob {x : Job} (hs' : s'.jobs = update s.jobs j x)
    (hrest : s'.owner = s.owner ∧ s'.request = s.request ∧ s'.stage = s.stage ∧ s'.lock = s.lock)
    (hop : x.aio.op = none) (hstate : x.state = (s.jobs j).state) : Completes j s s' := by
  obtain ⟨howner, hrequest, hstage, hlock⟩ := hrest
  refine ⟨howner, hrequest, hstage, hlock, ?_, fun i hi => ?_, fun i => ?_⟩
  · rw [hs', update_self, hop]
  · rw [hs', update_of_ne hi]
  · rw [hs']
    by_cases hi : i = j
    · subst hi
      rw [update_self, hstate]
    · rw [update_of_ne hi]

theorem completes_sendDone (e : Error) : Completes j s (s.sendDone j e) := by
  unfold Shared.sendDone
  dsimp only
  split
  · exact completes_setJob rfl ⟨rfl, rfl, rfl, rfl⟩ rfl rfl
  · exact completes_setJob rfl ⟨rfl, rfl, rfl, rfl⟩ rfl rfl

theorem completes_recvDone (c : Option Context) (ans : Answer (MsgPtr × List UInt8)) :
    Completes j s (s.recvDone j c ans) := by
  cases ans with
  | error e => exact completes_setJob rfl ⟨rfl, rfl, rfl, rfl⟩ rfl rfl
  | ok p => exact completes_setJob rfl ⟨rfl, rfl, rfl, rfl⟩ rfl rfl

theorem Placed.arrive (h : Placed s) (a : Req) : Placed (s.arrive a t) := by
  intro r j hr
  by_cases hra : r = a
  · subst hra
    simp [Shared.arrive] at hr
  · exact h r j (by simpa [Shared.arrive, hra] using hr)

/-- The request that waited for the operation is the affair of the callback now. -/
theorem Placed.callback (h : Placed s) (hcompletes : Completes j s s')
    (hrequest : s.request j = some r) : Placed (s'.callback j t) := by
  have hrequest' : s'.request j = some r := hcompletes.request ▸ hrequest
  intro r' i hr
  by_cases hrr : r' = r
  · subst hrr
    simp [Shared.callback, Shared.moveStage, hrequest'] at hr
  · have hr : s'.stage r' = .operation i := by
      simpa [Shared.callback, Shared.moveStage, hrequest', hrr] using hr
    obtain ⟨hreq, hown⟩ := h r' i (hcompletes.stage ▸ hr)
    have hne : i ≠ j := by
      rintro rfl
      exact hrr (Option.some.inj (hreq.symm.trans hrequest))
    constructor
    · simpa [Shared.callback, Shared.moveStage, hrequest', hcompletes.request] using hreq
    · simpa [Shared.callback, hne, hcompletes.owner] using hown

theorem Completes.came (h : Completes j s s') {r : Req} (hr : s.stage r ≠ .new) :
    (s'.callback j t).stage r ≠ .new := by
  have hr' : s'.stage r ≠ .new := by rwa [h.stage]
  cases hrequest : s'.request j with
  | none => simpa [Shared.callback, Shared.moveStage, hrequest] using hr'
  | some a =>
      by_cases hra : r = a
      · subst hra
        simp [Shared.callback, Shared.moveStage, hrequest]
      · simpa [Shared.callback, Shared.moveStage, hrequest, hra] using hr'

theorem Completes.lock_callback (h : Completes j s s') : (s'.callback j t).lock = s.lock :=
  (lock_moveStage ..).trans h.lock

end Completions

/-! ### Steps -/

/-- Any operation may be started. -/
abbrev Any (_ : Start) : Prop := True

/-- A statement that does one of the six things. -/
abbrev Mover {β : Type} (f : Action β) : Prop := ∃ start, Moving False start f

/-- The proxy is sound, its requests wait for operations of their own, and its
invocations take the lock and give it back. -/
structure Live (w : World) : Prop where
  sound : Sound False w
  placed : Placed w.shared
  exclusive : w.Exclusive Shared.lock
  moving : w.All Mover

section Steps

variable {w w' : World} {p : Prog Tid Reply Shared Unit} {n : ℕ}

theorem Effect.locking {K : Start → Prop} {β : Type} {f : Action β} {e e' : Bool × ℕ}
    (hf : Effect strict K f e e') : Locking Shared.lock f e.1 e'.1 := by
  cases hf with
  | step locking moving => exact locking
  | start o allowed locking moving hm => exact locking _

theorem Effect.mover {K : Start → Prop} {β : Type} {f : Action β} {e e' : Bool × ℕ}
    (hf : Effect False K f e e') : Mover f := by
  cases hf with
  | step locking moving => exact ⟨none, moving⟩
  | start o allowed locking moving hm => exact ⟨some o, moving⟩

/-- What the text of a function says of the lock. -/
theorem locks_of_typed {K : Start → Prop} (hp : p.Typed (Effect strict K) Ended (false, n)) :
    p.Locks Shared.lock false :=
  hp.part (E := Bool × ℕ) (S := Locking Shared.lock) Prod.fst Effect.locking fun _ _ h => h

/-- A step of an invocation is a move, or the exit. -/
theorem Live.moves (hw : Live w) {ans : Reply} (hrun : w.run t ans = some w') :
    w'.shared = w.shared ∨ ∃ start, Moves t start w.shared w'.shared := by
  have hs : Inv False w.shared := hw.sound.inv
  have hs' : Inv False w'.shared := (hw.sound.run hrun).inv
  obtain ⟨-, rfl⟩ | ⟨β, f, k, b, s, hcode, hf, rfl⟩ := Pool.run_eq_some.mp hrun
  · exact .inl rfl
  · obtain ⟨start, hmoving⟩ := (hw.moving t _ hcode).1
    exact .inr ⟨start, hmoving t ans w.shared b s hs hs' hf⟩

theorem Live.run (hw : Live w) {ans : Reply} (hrun : w.run t ans = some w') : Live w' := by
  refine ⟨hw.sound.run hrun, ?_, hw.exclusive.run hrun, hw.moving.run hrun⟩
  obtain hsame | ⟨start, hmoves⟩ := hw.moves hrun
  · rw [hsame]
    exact hw.placed
  · exact hw.placed.of_moves hmoves

/-- The environment starts an invocation. -/
theorem Live.spawn (hw : Live w) {s : Shared} (ht : w.code t = none)
    (hp : p.Typed (Effect False Any) Ended (false, n)) (hlock : s.lock = w.shared.lock)
    (hsound : Sound False (w.spawn t p s)) (hplaced : Placed s) : Live (w.spawn t p s) where
  sound := hsound
  placed := hplaced
  exclusive := hw.exclusive.spawn ht (locks_of_typed hp) hlock
  moving := hw.moving.spawn (hp.all (A := Mover) Effect.mover) s

theorem Live.step (hw : Live w) {l : Label} (hstep : Step w l w') : Live w' := by
  have hsound := sound_step hw.sound hstep False.elim
  cases hstep.stepped with
  | run hrun => exact hw.run hrun
  | request absent new =>
      exact hw.spawn absent (typed_restHandle trivial _) rfl hsound (hw.placed.arrive _)
  | @sendDone j e t c op absent =>
      obtain ⟨-, r, hrequest, -⟩ := (hw.sound.inv.jobs j).of_op (by simp [op])
      have hcompletes := completes_sendDone (s := w.shared) (j := j) e
      exact hw.spawn absent (typed_restJobCb trivial) hcompletes.lock_callback hsound
        (hw.placed.callback hcompletes hrequest)
  | @recvDone j ans t c op absent delivers =>
      obtain ⟨-, r, hrequest, -⟩ := (hw.sound.inv.jobs j).of_op (by simp [op])
      have hcompletes := completes_recvDone (s := w.shared) (j := j) c ans
      exact hw.spawn absent (typed_restJobCb trivial) hcompletes.lock_callback hsound
        (hw.placed.callback hcompletes hrequest)
  | dispose taken =>
      exact ⟨hsound, hw.placed.same ⟨rfl, rfl, rfl, rfl, rfl, rfl⟩, hw.exclusive.outside rfl,
        hw.moving⟩

theorem live_init (data : Req → List UInt8) : Live (.init data) := by
  refine ⟨sound_init False data, ?_, ⟨?_, ?_⟩, ?_⟩
  · intro r j hr
    cases hr
  · intro t p hcode
    cases hcode
  · intro t hlock
    cases hlock
  · intro t p hcode
    cases hcode

end Steps

/-! ### Runs -/

section Runs

variable {w : World} {data : Req → List UInt8} {tr : List (Transition World Label)}

theorem live_run (run : Run Step (.init data) tr w) : Live w :=
  run.invariant (live_init data) fun _ _ _ hw hstep => hw.step hstep

/-- The requests of a run have come. -/
theorem came_run (run : Run Step (.init data) tr w) {e : Transition World Label} (he : e ∈ tr)
    {a : Req} {t : Tid} (hlabel : e.label = .request a t) : w.shared.stage a ≠ .new := by
  induction run with
  | nil => cases he
  | @snoc tr w w' l run hstep ih =>
      have hw := live_run run
      obtain he | he := List.mem_append.mp he
      · have hcame := ih he
        cases hstep.stepped with
        | run hrun =>
            obtain hsame | ⟨start, hmoves⟩ := hw.moves hrun
            · rwa [hsame]
            · exact hmoves.came hcame
        | @request b u absent new =>
            by_cases hab : a = b
            · subst hab
              simp [Pool.spawn, Shared.arrive]
            · simpa [Pool.spawn, Shared.arrive, hab] using hcame
        | sendDone op absent => exact (completes_sendDone _).came hcame
        | recvDone op absent delivers => exact (completes_recvDone _ _).came hcame
        | dispose taken => exact hcame
      · obtain rfl := List.mem_singleton.mp he
        have hlabel : l = .request a t := hlabel
        subst hlabel
        cases hstep.stepped with
        | request absent new => simp [Pool.spawn, Shared.arrive]

/-- No invocation can go on, and no operation is under way. -/
structure AtRest (w : World) : Prop where
  exited : w.exited = false
  invocations : ∀ t ans, exec w (.run t ans) = none
  operations : ∀ j, (w.shared.jobs j).aio.op = none

theorem AtRest.run_none (h : AtRest w) (t : Tid) (ans : Reply) : w.run t ans = none := by
  have hnone := h.invocations t ans
  rw [exec, h.exited] at hnone
  exact hnone

theorem Live.returned (hw : Live w) (h : AtRest w) :
    (∀ t p, w.code t = some p → p = .pure ()) ∧ w.shared.lock = none :=
  hw.exclusive.at_rest h.run_none

/-- An invocation that has returned, or has not started, has nothing. -/
theorem Live.nothing (hw : Live w) (h : AtRest w) (t : Tid) :
    (∀ r, w.shared.stage r ≠ .invocation t) ∧ ∀ j, w.shared.owner j ≠ some (.invocation t) := by
  cases hcode : w.code t with
  | none => exact ⟨(hw.sound.idle hcode).1, (hw.sound.idle hcode).2.1⟩
  | some p =>
      obtain rfl := (hw.returned h).1 t p hcode
      obtain ⟨v, hsees, hdone⟩ := hw.sound.returned hcode
      have hsees : Sees t w.shared v := hsees
      exact ⟨hsees.settled hdone.pending, hsees.jobless hdone.job⟩

/-- At rest, a request that has come is answered. -/
theorem Live.answered (hw : Live w) (h : AtRest w) {r : Req} (hr : w.shared.stage r ≠ .new) :
    (answers w.shared r).length = 1 := by
  have hs : Inv False w.shared := hw.sound.inv
  cases hs.requests r with
  | new stage => exact absurd stage hr
  | invocation t stage => exact absurd stage ((hw.nothing h t).1 r)
  | operation j stage =>
      obtain ⟨-, howner⟩ := hw.placed r j stage
      exact absurd (h.operations j) ((hs.jobs j).underway howner)
  | answered f stage log => simp [log]

/-- At rest, every job that was made is on the freelist. -/
theorem Live.free (hw : Live w) (h : AtRest w) : ∃ l,
    Chain (fun j => (w.shared.jobs j).next) w.shared.head l ∧
      ∀ j, j ∈ l ↔ w.shared.owner j ≠ none := by
  have hs : Inv False w.shared := hw.sound.inv
  obtain ⟨-, hlock⟩ := hw.returned h
  have hhook : w.shared.hook = none := by
    cases hhook : w.shared.hook with
    | none => rfl
    | some j =>
        obtain ⟨t, ht, -⟩ := hs.listed.hooked j hhook
        rw [hlock] at ht
        cases ht
  obtain ⟨l, hchain, hmem⟩ := hs.listed.chain
  rw [Shared.freelist, hhook] at hchain
  refine ⟨l, hchain, fun j => ?_⟩
  rw [hmem]
  constructor
  · intro howner
    simp [howner]
  · intro howner
    cases hs.jobs j with
    | new owner => exact absurd owner howner
    | free owner => exact owner
    | operation r owner => exact absurd (h.operations j) ((hs.jobs j).underway owner)
    | invocation t r owner => exact absurd owner ((hw.nothing h t).2 j)

/-- When no invocation can go on and no operation is under way, and the server has
not exited, nothing is left to do: every request that came in is answered, exactly
once, every invocation has returned, and every job is on the freelist, for which
nobody has the lock. -/
theorem settled_at_rest (run : Run Step (.init data) tr w) (hrest : AtRest w) :
    (∀ e ∈ tr, ∀ a t, e.label = .request a t → (answers w.shared a).length = 1) ∧
    (∀ t p, w.code t = some p → p = .pure ()) ∧ w.shared.lock = none ∧
    ∃ l, Chain (fun j => (w.shared.jobs j).next) w.shared.head l ∧
      ∀ j, j ∈ l ↔ w.shared.owner j ≠ none := by
  have hw := live_run run
  obtain ⟨hreturned, hlock⟩ := hw.returned hrest
  refine ⟨fun e he a t hlabel => ?_, hreturned, hlock, hw.free hrest⟩
  exact hw.answered hrest (came_run run he hlabel)

/-- The thread 0 gets the new job 5 for the request 0, but no response, and gives up. -/
def refused : List Label :=
  .request 0 0 :: statements 0 3 ++ [.run 0 (.ok 5), .run 0 (.error someFailure)] ++ statements 0 8

/-- The request is refused, and the job is on the freelist. -/
theorem settled_at_rest_refused : ∃ tr w, Run Step (.init fun _ => [1, 2, 3]) tr w ∧
    tr.map Transition.label = refused ∧ (answers w.shared 0).length = 1 ∧
    w.shared.head = some 5 ∧ ∃ l, Chain (fun j => (w.shared.jobs j).next) (some 5) l ∧
      ∀ j, j ∈ l ↔ w.shared.owner j ≠ none := by
  obtain ⟨w, hw, hexited, hhead, hjobs, hcode⟩ : ∃ w,
      Run.follow exec (.init fun _ => [1, 2, 3]) refused = some w ∧ w.exited = false ∧
        w.shared.head = some 5 ∧ (∀ j, (w.shared.jobs j).aio.op = none) ∧
        ∀ t p, w.code t = some p → p = .pure () := by
    refine ⟨_, rfl, rfl, rfl, fun j => ?_, fun t p hcode => ?_⟩
    · simp [Shared.setJob, Shared.touch, Shared.destroys, Shared.freeMsg, Pool.spawn, World.init,
        Shared.init, Shared.arrive]
    · by_cases ht : t = 0
      · subst ht
        exact (Option.some.inj hcode).symm
      · simp [ht, Pool.spawn, World.init] at hcode
  obtain ⟨tr, run, hlabels⟩ := Run.of_follow_labels hw
  have hrest : AtRest w := by
    refine ⟨hexited, fun t ans => ?_, hjobs⟩
    rw [exec, hexited]
    cases ht : w.code t with
    | none => simp [Pool.run, ht]
    | some p =>
        obtain rfl := hcode t p ht
        simp [Pool.run, ht]
  obtain ⟨hanswered, -, -, hfree⟩ := settled_at_rest run hrest
  have hmem : Label.request 0 0 ∈ tr.map Transition.label := by
    rw [hlabels]
    simp [refused]
  obtain ⟨e, he, hlabel⟩ := List.mem_map.mp hmem
  exact ⟨tr, w, run, hlabels, hanswered e he 0 0 hlabel, hhead, hhead ▸ hfree⟩

end Runs

end Nngpp.Rest
