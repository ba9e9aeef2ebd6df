import Nngpp.Lib.Conjoin
import Nngpp.Rest.Moves

/-!
The data of a request is what is sent on.

The message that an invocation fills with the data of its request, and puts into
the aio of its job, is not changed before nng takes it. This is one more invariant
of the proxy (`Loaded`). Only the end of `rest_handle` could make it false; all
other statements start no send, and leave those alone that are under way.
-/

namespace Nngpp.Rest

open Function Lib

variable {strict : Prop} {t : Tid} {s s' : Shared} {data : Req → List UInt8}
  {P : Req → List UInt8 → Prop}

/-- A message that is being sent for a request has the data of the request, and `P` is
true of what nng has delivered for one. -/
structure Loaded (data : Req → List UInt8) (P : Req → List UInt8 → Prop) (s : Shared) : Prop where
  known : s.data = data
  sends : ∀ j c r, s.owner j = some .operation → (s.jobs j).aio.op = some (.send c) →
    s.request j = some r → ∃ m, (s.jobs j).aio.slot = some m ∧ m.body = data r
  replies : ∀ r body, s.reply r = some body → P r body

theorem loaded_init (data : Req → List UInt8) (P : Req → List UInt8 → Prop) :
    Loaded data P (.init data) :=
  ⟨rfl, nofun, nofun⟩

/-- Nothing that `Loaded` is about has changed but one job, on which no send is
started. -/
theorem Loaded.change (h : Loaded data P s) (j : JobPtr) (hdata : s'.data = s.data)
    (hreply : s'.reply = s.reply)
    (hothers : ∀ i, i ≠ j → s'.owner i = s.owner i ∧ s'.jobs i = s.jobs i ∧
      s'.request i = s.request i)
    (hj : s'.owner j = some .operation → ∀ c, (s'.jobs j).aio.op ≠ some (.send c)) :
    Loaded data P s' where
  known := hdata.trans h.known
  sends i c r howner hop hrequest := by
    by_cases hi : i = j
    · subst hi
      exact absurd hop (hj howner c)
    · obtain ⟨hown, hjob, hreq⟩ := hothers i hi
      rw [hjob] at hop ⊢
      exact h.sends i c r (hown ▸ howner) hop (hreq ▸ hrequest)
  replies := hreply ▸ h.replies

theorem Loaded.same (h : Loaded data P s) (hsame : Same s s') : Loaded data P s' where
  known := hsame.data.trans h.known
  sends := by
    rw [hsame.owner, hsame.jobs, hsame.request]
    exact h.sends
  replies := hsame.reply ▸ h.replies

/-- A statement that starts no send leaves those alone that are under way. -/
theorem Loaded.of_moves {start : Option Start} (h : Loaded data P s) (hmoves : Moves t start s s')
    (hstart : start ≠ some .send) : Loaded data P s' := by
  cases hmoves with
  | stays same => exact h.same same
  | edits j x owner op same =>
      refine Loaded.same ?_ same
      refine h.change j rfl rfl (fun i hi => ⟨rfl, update_of_ne hi .., rfl⟩) fun howner => ?_
      have howner : s.owner j = some .operation := howner
      simp [owner] at howner
  | takes j owner same =>
      refine Loaded.same ?_ same
      refine h.change j rfl rfl (fun i hi => ?_) fun howner => ?_
      · exact ⟨update_of_ne hi .., rfl, update_of_ne hi ..⟩
      · simp at howner
  | gives j owner same =>
      refine Loaded.same ?_ same
      refine h.change j rfl rfl (fun i hi => ?_) fun howner => ?_
      · exact ⟨update_of_ne hi .., rfl, update_of_ne hi ..⟩
      · simp at howner
  | starts o j x c ho owner op slot same =>
      cases o with
      | send => exact absurd ho hstart
      | recv =>
          refine Loaded.same ?_ same
          refine h.change j ?_ ?_ (fun i hi => ⟨update_of_ne hi .., ?_, ?_⟩) ?_
          · cases s.request j <;> rfl
          · cases s.request j <;> rfl
          · cases s.request j <;> exact update_of_ne hi ..
          · cases s.request j <;> rfl
          · intro _ c'
            cases s.request j <;> simp [Shared.moveStage, Shared.setJob, op, Start.operation]
  | finishes r same =>
      refine Loaded.same ?_ same
      exact ⟨h.known, h.sends, h.replies⟩

/-! ### The environment -/

section Environment

variable {j : JobPtr}

theorem Loaded.callback (h : Loaded data P s) : Loaded data P (s.callback j t) := by
  unfold Shared.callback
  refine h.change j ?_ ?_ (fun i hi => ⟨update_of_ne hi .., ?_, ?_⟩) fun howner => ?_
  · cases s.request j <;> rfl
  · cases s.request j <;> rfl
  · cases s.request j <;> rfl
  · cases s.request j <;> rfl
  · simp at howner

theorem Loaded.sendDone (h : Loaded data P s) (e : Error) : Loaded data P (s.sendDone j e) := by
  unfold Shared.sendDone
  dsimp only
  split
  · refine h.change j rfl rfl (fun i hi => ⟨rfl, update_of_ne hi .., rfl⟩) fun _ c => ?_
    simp [Shared.setJob]
  · refine h.change j rfl rfl (fun i hi => ⟨rfl, update_of_ne hi .., rfl⟩) fun _ c => ?_
    simp [Shared.setJob]

theorem Loaded.recvDone (h : Loaded data P s) {c : Option Context}
    {ans : Answer (MsgPtr × List UInt8)}
    (hP : ∀ m body r, ans = .ok (m, body) → s.request j = some r → P r body) :
    Loaded data P (s.recvDone j c ans) := by
  cases ans with
  | error e =>
      refine h.change j rfl rfl (fun i hi => ⟨rfl, update_of_ne hi .., rfl⟩) fun _ c => ?_
      simp [Shared.recvDone, Shared.setJob]
  | ok p =>
      obtain ⟨m, body⟩ := p
      have hrest : Loaded data P { s.recvDone j c (.ok (m, body)) with reply := s.reply } := by
        refine h.change j rfl rfl (fun i hi => ⟨rfl, update_of_ne hi .., rfl⟩) fun _ c => ?_
        simp [Shared.recvDone, Shared.setJob]
      refine ⟨hrest.known, hrest.sends, fun r b hr => ?_⟩
      cases hrequest : s.request j with
      | none =>
          simp only [Shared.recvDone, hrequest] at hr
          exact h.replies r b hr
      | some r' =>
          simp only [Shared.recvDone, hrequest] at hr
          by_cases hrr : r = r'
          · subst hrr
            obtain rfl : body = b := by simpa using hr
            exact hP m body r rfl hrequest
          · exact h.replies r b (by simpa [hrr] using hr)

end Environment

/-! ### The statements and functions -/

/-- A statement that starts no send, and leaves those alone that are under way. -/
abbrev Spares (strict : Prop) (data : Req → List UInt8) (P : Req → List UInt8 → Prop)
    {β : Type} (f : Action β) : Prop :=
  (logic strict).Keeps (Loaded data P) f

theorem spares_of_moving {β : Type} {f : Action β} {start : Option Start}
    (hf : Moving strict start f) (hstart : start ≠ some .send) : Spares strict data P f := by
  intro t ans s b s' hs hs' h hrun
  exact h.of_moves (hf t ans s b s' hs hs' hrun) hstart

theorem spares_plain {β : Type} {f : Action β} (hf : Moving strict none f) :
    Spares strict data P f :=
  spares_of_moving hf (by simp)

/-- The operations that are not a send. -/
abbrev NotSend (o : Start) : Prop := o ≠ .send

theorem Effect.spares {β : Type} {f : Action β} {e e' : Bool × ℕ}
    (hf : Effect strict NotSend f e e') : Spares strict data P f := by
  cases hf with
  | step locking moving => exact spares_plain moving
  | start o allowed locking moving hm => exact spares_of_moving moving (by simpa using allowed)

/-- A program that starts no send. -/
theorem all_of_typed {α : Type} {p : Prog Tid Reply Shared α} {Q : α → Bool × ℕ → Prop}
    {e : Bool × ℕ} (hp : p.Typed (Effect strict NotSend) Q e) : p.All (Spares strict data P) :=
  hp.all (A := Spares strict data P) Effect.spares

section Functions

variable {j : JobPtr}

theorem all_restRecycleJob : (restRecycleJob j).run.All (Spares strict data P) :=
  all_of_typed (typed_restRecycleJob (n := 0) (Q := fun _ _ => True) (X := fun _ => True)
    trivial fun _ => trivial)

theorem all_restGetJob : restGetJob.run.All (Spares strict data P) :=
  all_of_typed (typed_restGetJob (n := 0) (Q := fun _ _ => True) (X := fun _ => True)
    (fun _ => trivial) fun _ => trivial)

theorem all_restHttpFatal {who : String} {what : Error} :
    (restHttpFatal j who what).run.All (Spares strict data P) :=
  all_of_typed (typed_restHttpFatal (n := 0) (Q := fun _ _ => True) (X := fun _ => True)
    trivial fun _ => trivial)

theorem all_prepare : (prepare j).run.All (Spares strict data P) :=
  all_of_typed (typed_prepare (n := 0) (Q := fun _ _ => True) (X := fun _ => True)
    trivial fun _ _ => trivial)

theorem all_restJobCb : (restJobCb j).All (Spares strict data P) :=
  all_of_typed (typed_restJobCb (by simp))

end Functions

end Nngpp.Rest
