import Mathlib.Data.Finsupp.Weight
import Nngpp.Rest.Progress

/-!
The proxy does not go on for ever.

An invocation has a number of statements left, and an operation that is under way
stands for its completion and for the statements of the callback that follows
(`Budget`). A request brings both with it, and every step uses up one. So the
number of steps of a run is bounded by a multiple of the number of its requests.

The callback does not know by its text how much it has to do: it looks at the state
of its job first. That the state is the one in which the operation was started is
what the invariant says of the operation.
-/

namespace Nngpp.Rest

open Function Lib

variable {t : Tid} {s s' : Shared} {j : JobPtr}

/-! ### What is left to do -/

/-- What an operation brings with it. -/
def Operation.cost : Operation → ℕ
  | .send _ => Start.send.cost
  | .recv _ => Start.recv.cost

theorem cost_operation (o : Start) (c : Option Context) : (o.operation c).cost = o.cost := by
  cases o <;> rfl

/-- What a job has under way. -/
def Job.cost (x : Job) : ℕ := (x.aio.op.map Operation.cost).getD 0

theorem Job.cost_of_op {x y : Job} (h : y.aio.op = x.aio.op) : y.cost = x.cost := by
  rw [Job.cost, h, Job.cost]

theorem Job.cost_of_none {x : Job} (h : x.aio.op = none) : x.cost = 0 := by
  rw [Job.cost, h]
  rfl

/-- An invocation has at most `n` statements left, with the operation that it starts. -/
inductive Left (s : Shared) (t : Tid) : Prog Tid Reply Shared Unit → ℕ → Prop
  | typed {p : Prog Tid Reply Shared Unit} {n : ℕ} (has : Bool)
      (h : p.Typed (Effect False Any) Ended (has, n)) : Left s t p n
  | called {n : ℕ} (j : JobPtr) (owner : s.owner j = some (.invocation t))
      (hn : n = 1 + (s.jobs j).state.cost) : Left s t (restJobCb j) n

/-- What an invocation has left depends on its own job only. -/
theorem Left.congr {p : Prog Tid Reply Shared Unit} {n : ℕ} (h : Left s t p n)
    (hkept : ∀ j, s.owner j = some (.invocation t) →
      s'.owner j = some (.invocation t) ∧ (s'.jobs j).state = (s.jobs j).state) :
    Left s' t p n := by
  cases h with
  | typed has h => exact .typed has h
  | called j owner hn =>
      obtain ⟨howner, hstate⟩ := hkept j owner
      exact .called j howner (hstate ▸ hn)

/-- All that is left to do: by the invocations, and with the operations. -/
structure Tally (w : World) (rem : Tid →₀ ℕ) (ops : JobPtr →₀ ℕ) : Prop where
  ops : ∀ j, ops j = (w.shared.jobs j).cost
  left : ∀ t p, w.code t = some p → Left w.shared t p (rem t)

/-- At most `n` steps are left. -/
def Budget (w : World) (n : ℕ) : Prop :=
  ∃ rem ops, Tally w rem ops ∧ rem.degree + ops.degree ≤ n

/-- A sum with one summand changed. -/
theorem degree_update {ι : Type} (f : ι →₀ ℕ) (i : ι) (b : ℕ) :
    (f.update i b).degree + f i = f.degree + b := by
  classical
  have hupdate : (f.update i b).degree = (f.erase i).degree + b := by
    rw [Finsupp.update_eq_erase_add_single, map_add, Finsupp.degree_single]
  have hself : f.degree = f i + (f.erase i).degree := by
    conv_lhs => rw [← Finsupp.single_add_erase i f, map_add, Finsupp.degree_single]
  omega

/-- A move starts nothing, or the one operation that it may start, on a job that has
none. -/
theorem Moves.cost {start : Option Start} (hmoves : Moves t start s s') (hs : Inv False s) :
    (∀ j, (s'.jobs j).cost = (s.jobs j).cost) ∨
      ∃ o j, start = some o ∧ (s.jobs j).cost = 0 ∧
        ∀ i, (s'.jobs i).cost = if i = j then o.cost else (s.jobs i).cost := by
  cases hmoves with
  | stays same => exact .inl fun j => by rw [same.jobs]
  | edits j x owner op same =>
      refine .inl fun i => ?_
      rw [same.jobs]
      by_cases hi : i = j
      · subst hi
        exact Job.cost_of_op (by simpa [Shared.setJob] using op)
      · simp [Shared.setJob, hi]
  | takes j owner same => exact .inl fun j => by rw [same.jobs]
  | gives j owner same => exact .inl fun j => by rw [same.jobs]
  | starts o j x c ho owner op slot same =>
      obtain ⟨-, -, -, -, hnone⟩ := (hs.jobs j).of_owner owner
      refine .inr ⟨o, j, ho, Job.cost_of_none hnone, fun i => ?_⟩
      have hjobs : s'.jobs = update s.jobs j x := by
        rw [same.jobs]
        cases s.request j <;> rfl
      rw [hjobs]
      by_cases hi : i = j
      · subst hi
        simp [Job.cost, op, cost_operation]
      · simp [hi]
  | finishes r same => exact .inl fun j => by rw [same.jobs]

section Steps

variable {w w' : World} {rem : Tid →₀ ℕ} {ops : JobPtr →₀ ℕ} {n m : ℕ}

/-- An invocation is at a point where it has `m` statements left. -/
theorem Tally.next {ops' : JobPtr →₀ ℕ} {p : Prog Tid Reply Shared Unit}
    (hops : ∀ j, ops' j = (s.jobs j).cost)
    (hothers : ∀ u q, u ≠ t → w.code u = some q → Left s u q (rem u)) (hp : Left s t p m) :
    Tally (w.spawn t p s) (rem.update t m) ops' where
  ops := hops
  left u q hu := by
    by_cases hut : u = t
    · subst hut
      simp only [Pool.spawn, update_self, Option.some.injEq] at hu
      subst hu
      show Left s u p _
      simpa using hp
    · simp only [Pool.spawn, update_of_ne hut] at hu
      show Left s u q _
      simpa [hut] using hothers u q hut hu

/-- What the other invocations have left stays when one goes on. -/
theorem Live.others (hw : Live w) {ans : Reply} (hrun : w.run t ans = some w') (u : Tid)
    (p : Prog Tid Reply Shared Unit) (hu : u ≠ t) (hcode : w.code u = some p)
    (h : Left w.shared u p n) : Left w'.shared u p n := by
  obtain ⟨v, hsees, -⟩ := hw.sound.threads u p hcode
  have hsees' := hw.sound.run_frames hrun u hu v hsees
  apply h.congr
  intro j howner
  have hjob := (hsees.job j _).mpr ⟨howner, rfl⟩
  obtain ⟨howner', hsame⟩ := (hsees'.job j _).mp hjob
  exact ⟨howner', by rw [hsame]⟩

/-- An invocation has fewer statements left than before, and started nothing. -/
theorem Tally.spend (h : Tally w rem ops) {p : Prog Tid Reply Shared Unit}
    (hrem : m < rem t) (hcost : ∀ j, (s.jobs j).cost = (w.shared.jobs j).cost)
    (hothers : ∀ u q, u ≠ t → w.code u = some q → Left s u q (rem u)) (hp : Left s t p m)
    (hle : rem.degree + ops.degree ≤ n) : ∃ k, n = k + 1 ∧ Budget (w.spawn t p s) k := by
  have hdegree := degree_update rem t m
  have hops : ∀ j, ops j = (s.jobs j).cost := fun j => (h.ops j).trans (hcost j).symm
  exact ⟨n - 1, by omega, rem.update t m, ops, Tally.next hops hothers hp, by omega⟩

/-- An invocation has started an operation, and has given it all that it brings with
it. -/
theorem Tally.spend_start (h : Tally w rem ops) {p : Prog Tid Reply Shared Unit} {c : ℕ}
    (hrem : m + c < rem t) (hnone : (w.shared.jobs j).cost = 0)
    (hcost : ∀ i, (s.jobs i).cost = if i = j then c else (w.shared.jobs i).cost)
    (hothers : ∀ u q, u ≠ t → w.code u = some q → Left s u q (rem u)) (hp : Left s t p m)
    (hle : rem.degree + ops.degree ≤ n) : ∃ k, n = k + 1 ∧ Budget (w.spawn t p s) k := by
  have hdegree := degree_update rem t m
  have hdegree' := degree_update ops j c
  rw [h.ops j, hnone] at hdegree'
  have hops : ∀ i, ops.update j c i = (s.jobs i).cost := by
    intro i
    rw [hcost i]
    by_cases hi : i = j
    · subst hi
      simp
    · simp [hi, h.ops i]
  exact ⟨n - 1, by omega, rem.update t m, ops.update j c, Tally.next hops hothers hp, by omega⟩

/-- A statement uses up one step, and what it starts was counted. -/
theorem Budget.run (hb : Budget w n) (hw : Live w) {ans : Reply}
    (hrun : w.run t ans = some w') (hexited : w'.exited = false) :
    ∃ m, n = m + 1 ∧ Budget w' m := by
  obtain ⟨rem, ops, htally, hle⟩ := hb
  have hs : Inv False w.shared := hw.sound.inv
  have hs' : Inv False w'.shared := (hw.sound.run hrun).inv
  have hothers := fun u q hu hcode => hw.others hrun u q hu hcode (htally.left u q hcode)
  cases hcode : w.code t with
  | none => simp [Pool.run, hcode] at hrun
  | some p =>
      have hleft := htally.left t p hcode
      generalize hrem : rem t = k at hleft
      cases hleft with
      | called j howner hk =>
          -- the first statement of the callback, which looks at the state of the job
          have hact : w.code t = some (.act (read j Job.state) _) := hcode
          rw [Pool.run_act hact] at hrun
          obtain ⟨⟨state, s⟩, hf, rfl⟩ := Option.map_eq_some_iff.mp hrun
          have hmoves := moving_onJob (fun _ => rfl) t ans w.shared state s hs hs' hf
          obtain hcost | ⟨o, i, ho, -⟩ := hmoves.cost hs
          · obtain ⟨rfl, -⟩ := Prod.mk.inj (Option.some.inj hf)
            refine htally.spend (m := (w.shared.jobs j).state.cost) (by omega) hcost hothers ?_ hle
            refine .typed false ?_
            exact typed_restJobCb_state (K := Any) (w.shared.jobs j).state fun _ => trivial
          · cases ho
      | typed has htyped =>
          cases p with
          | pure a => simp [Pool.run, hcode] at hrun
          | halt =>
              simp only [Pool.run, hcode, Option.some.injEq] at hrun
              rw [← hrun] at hexited
              cases hexited
          | act f k =>
              rw [Pool.run_act hcode] at hrun
              obtain ⟨⟨b, s⟩, hf, rfl⟩ := Option.map_eq_some_iff.mp hrun
              obtain ⟨e', heffect, hk⟩ := htyped
              generalize he : (has, _) = e at heffect
              cases heffect with
              | step locking moving =>
                  obtain ⟨-, rfl⟩ := Prod.mk.inj he
                  obtain hcost | ⟨o, i, ho, -⟩ := (moving t ans w.shared b s hs hs' hf).cost hs
                  · exact htally.spend (by omega) hcost hothers (.typed _ (hk b)) hle
                  · cases ho
              | start o allowed locking moving hm =>
                  -- the budget of the operation comes out of that of the invocation
                  obtain ⟨-, rfl⟩ := Prod.mk.inj he
                  obtain hcost | ⟨o', i, ho, hnone, hcost⟩ :=
                    (moving t ans w.shared b s hs hs' hf).cost hs
                  · exact htally.spend (by omega) hcost hothers (.typed _ (hk b)) hle
                  · obtain rfl := Option.some.inj ho
                    exact htally.spend_start (by omega) hnone hcost hothers (.typed _ (hk b)) hle

/-- A request brings the statements of its handler with it. -/
theorem Budget.request (hb : Budget w n) (a : Req) :
    Budget (w.spawn t (restHandle a) (w.shared.arrive a t)) (n + 40) := by
  obtain ⟨rem, ops, htally, hle⟩ := hb
  have hdegree := degree_update rem t 40
  refine ⟨rem.update t 40, ops, Tally.next htally.ops (fun u q hu hcode => ?_) ?_, by omega⟩
  · exact (htally.left u q hcode).congr fun j howner => ⟨howner, rfl⟩
  · exact .typed false (typed_restHandle trivial a)

/-- The end of an operation uses up one step, and the callback gets the rest of what
came with it. -/
theorem Budget.callback (hb : Budget w n) (howner : w.shared.owner j = some .operation)
    (hcost : (w.shared.jobs j).cost = 2 + (w.shared.jobs j).state.cost)
    (hcompletes : Completes j w.shared s) :
    ∃ m, n = m + 1 ∧ Budget (w.spawn t (restJobCb j) (s.callback j t)) m := by
  obtain ⟨rem, ops, htally, hle⟩ := hb
  have hdegree := degree_update rem t (1 + (w.shared.jobs j).state.cost)
  have hdegree' := degree_update ops j 0
  rw [htally.ops j, hcost] at hdegree'
  have hjobs : (s.callback j t).jobs = s.jobs := by
    unfold Shared.callback Shared.moveStage
    cases s.request j <;> rfl
  refine ⟨n - 1, by omega, _, ops.update j 0, Tally.next (fun i => ?_) (fun u q hu hcode => ?_) ?_,
    (by omega : (rem.update t (1 + (w.shared.jobs j).state.cost)).degree + _ ≤ n - 1)⟩
  · rw [hjobs]
    by_cases hi : i = j
    · subst hi
      simpa using (Job.cost_of_none hcompletes.ended).symm
    · rw [Job.cost_of_op (hcompletes.others i hi), ← htally.ops i]
      simp [hi]
  · apply (htally.left u q hcode).congr
    intro i hi
    have hne : i ≠ j := by
      rintro rfl
      rw [howner] at hi
      cases hi
    constructor
    · exact (update_of_ne hne ..).trans ((congrFun hcompletes.owner i).trans hi)
    · rw [hjobs]
      exact hcompletes.state i
  · refine .called j (update_self ..) ?_
    rw [hjobs, hcompletes.state j]

/-- What an operation brings with it is its end, and what the callback has to do in
the state of the job. -/
theorem cost_underway {r : Req} {x : Job} (h : Awaits r x) : x.cost = 2 + x.state.cost := by
  obtain ⟨c, -, -, ⟨hstate, hop, -⟩ | ⟨hstate, hop, -⟩⟩ := h.started
  · rw [Job.cost, hop, hstate]
    rfl
  · rw [Job.cost, hop, hstate]
    rfl

/-- nng is not part of the proxy, so the end of a message that it has taken is not a
step of it. -/
def Label.isBusy : Label → Bool
  | .dispose _ => false
  | _ => true

def Label.isRequest : Label → Bool
  | .request _ _ => true
  | _ => false

/-- Every step uses up one of those that are left; a request brings 41. -/
theorem Budget.step (hb : Budget w n) (hw : Live w) {l : Label} (hstep : Step w l w')
    (hexited : w'.exited = false) : ∃ m, Budget w' m ∧
      m + (if l.isBusy then 1 else 0) ≤ n + 41 * (if l.isRequest then 1 else 0) := by
  have hs : Inv False w.shared := hw.sound.inv
  cases hstep.stepped with
  | run hrun =>
      obtain ⟨m, rfl, hm⟩ := hb.run hw hrun hexited
      exact ⟨m, hm, le_rfl⟩
  | request absent new => exact ⟨n + 40, hb.request _, le_rfl⟩
  | @sendDone j e t c op absent =>
      obtain ⟨howner, r, -, -, -, hawaits⟩ := (hs.jobs j).of_op (by simp [op])
      obtain ⟨m, rfl, hm⟩ := hb.callback howner (cost_underway hawaits) (completes_sendDone e)
      exact ⟨m, hm, le_rfl⟩
  | @recvDone j ans t c op absent delivers =>
      obtain ⟨howner, r, -, -, -, hawaits⟩ := (hs.jobs j).of_op (by simp [op])
      obtain ⟨m, rfl, hm⟩ := hb.callback howner (cost_underway hawaits) (completes_recvDone c ans)
      exact ⟨m, hm, le_rfl⟩
  | dispose taken =>
      obtain ⟨rem, ops, htally, hle⟩ := hb
      refine ⟨n, ⟨rem, ops, ⟨htally.ops, fun t p hcode => ?_⟩, hle⟩, le_rfl⟩
      exact (htally.left t p hcode).congr fun j howner => ⟨howner, rfl⟩

theorem budget_init (data : Req → List UInt8) : Budget (.init data) 0 := by
  refine ⟨0, 0, ⟨fun j => rfl, ?_⟩, by simp⟩
  intro t p hcode
  cases hcode

end Steps

/-! ### Runs -/

section Runs

variable {w : World} {data : Req → List UInt8} {tr : List (Transition World Label)}

def busy (tr : List (Transition World Label)) : ℕ := tr.countP fun e => e.label.isBusy

def requests (tr : List (Transition World Label)) : ℕ := tr.countP fun e => e.label.isRequest

/-- However the requests, the statements and the completions come, and whatever nng
answers: a run has at most 41 steps for each of its requests, and the exit. -/
theorem steps_bounded (run : Run Step (.init data) tr w) : busy tr ≤ 41 * requests tr + 1 := by
  suffices H : (w.exited = false → ∃ m, Budget w m ∧ m + busy tr ≤ 41 * requests tr) ∧
      busy tr ≤ 41 * requests tr + 1 from H.2
  induction run with
  | nil => exact ⟨fun _ => ⟨0, budget_init data, le_rfl⟩, Nat.zero_le _⟩
  | @snoc tr w w' l run hstep ih =>
      obtain ⟨hbudget, -⟩ := ih
      obtain ⟨n, hn, hle⟩ := hbudget hstep.running
      have hbusy : busy (tr ++ [⟨w, l, w'⟩]) = busy tr + if l.isBusy then 1 else 0 := by
        simp [busy, List.countP_append, List.countP_singleton]
      have hrequests : requests (tr ++ [⟨w, l, w'⟩]) =
          requests tr + if l.isRequest then 1 else 0 := by
        simp [requests, List.countP_append, List.countP_singleton]
      rw [hbusy, hrequests]
      constructor
      · intro hexited
        obtain ⟨m, hm, hle'⟩ := hn.step (live_run run) hstep hexited
        exact ⟨m, hm, by omega⟩
      · -- the last step may be the exit, which no budget covers
        split <;> split <;> omega

/-- One request, and 40 steps. -/
theorem steps_bounded_exchanged : ∃ tr w, Run Step (.init fun _ => [1, 2, 3]) tr w ∧
    tr.map Transition.label = exchanged ∧ busy tr ≤ 42 := by
  obtain ⟨w, hw⟩ : ∃ w, Run.follow exec (.init fun _ => [1, 2, 3]) exchanged = some w :=
    ⟨_, rfl⟩
  obtain ⟨tr, run, hlabels⟩ := Run.of_follow_labels hw
  have hrequests : requests tr = 1 := by
    have hcount : requests tr = (tr.map Transition.label).countP Label.isRequest := by
      rw [List.countP_map]
      rfl
    rw [hcount, hlabels]
    rfl
  have hle := steps_bounded run
  rw [hrequests] at hle
  exact ⟨tr, w, run, hlabels, hle⟩
end Runs

end Nngpp.Rest
