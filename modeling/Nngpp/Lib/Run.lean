import Mathlib.Logic.Function.Basic
import Mathlib.Data.List.Basic

/-!
Finite runs of labelled transition systems, and the two ways a property is
carried along them.

A run keeps its transitions, each with the state it left and the state it
entered, because a claim about a run is either about every state it visits or
about every step it takes. `Run.invariant` is the plain induction. `Run.guarded`
is the induction for a property which only steps of a certain kind preserve, and
`Run.forall_post_iff` adds that the other steps always destroy it: then the
property holds all along a run exactly when all its steps are of that kind.

The second half is the same for deterministic machines, where a run is the list
of the outputs: `Machine.outputs_eq` is the simulation that makes two machines
indistinguishable.
-/

namespace Nngpp.Lib

variable {σ ℓ : Type*}

/-- One step of a run. -/
structure Transition (σ ℓ : Type*) where
  pre : σ
  label : ℓ
  post : σ

/-- `Run step s tr t`: the transitions `tr`, one after the other, lead from `s`
to `t`. -/
inductive Run (step : σ → ℓ → σ → Prop) (s : σ) : List (Transition σ ℓ) → σ → Prop
  | nil : Run step s [] s
  | snoc {tr : List (Transition σ ℓ)} {t u : σ} {l : ℓ} (run : Run step s tr t)
      (hstep : step t l u) : Run step s (tr ++ [⟨t, l, u⟩]) u

namespace Run

variable {step : σ → ℓ → σ → Prop} {s t : σ} {tr : List (Transition σ ℓ)}

/-- What every step of the system preserves holds wherever a run ends. -/
theorem invariant {I : σ → Prop} (run : Run step s tr t) (hinit : I s)
    (hstep : ∀ t l u, I t → step t l u → I u) : I t := by
  induction run with
  | nil => exact hinit
  | snoc _ h ih => exact hstep _ _ _ ih h

/-- What the steps satisfying `ok` preserve holds wherever a run made of such
steps ends. -/
theorem guarded {I : σ → Prop} {ok : Transition σ ℓ → Prop} (run : Run step s tr t)
    (hinit : I s) (hstep : ∀ t l u, I t → step t l u → ok ⟨t, l, u⟩ → I u)
    (hok : ∀ e ∈ tr, ok e) : I t := by
  induction run with
  | nil => exact hinit
  | snoc _ h ih =>
      simp only [List.mem_append, List.mem_singleton] at hok
      exact hstep _ _ _ (ih fun e he => hok e (.inl he)) h (hok _ (.inr rfl))

/-- Every transition of a run is a step of the system, taken in a state which
satisfies the invariant. -/
theorem of_mem {I : σ → Prop} (run : Run step s tr t) (hinit : I s)
    (hstep : ∀ t l u, I t → step t l u → I u) {e : Transition σ ℓ} (he : e ∈ tr) :
    I e.pre ∧ step e.pre e.label e.post := by
  induction run with
  | nil => simp at he
  | snoc run h ih =>
      rcases List.mem_append.mp he with he | he
      · exact ih he
      · rw [List.mem_singleton.mp he]
        exact ⟨run.invariant hinit hstep, h⟩

/-- A property which a step from a state that has it keeps exactly when the step
satisfies `ok` holds all along a run exactly when all its steps do. -/
theorem forall_post_iff {I : σ → Prop} {ok : Transition σ ℓ → Prop} (run : Run step s tr t)
    (hinit : I s) (hstep : ∀ t l u, I t → step t l u → (I u ↔ ok ⟨t, l, u⟩)) :
    (∀ e ∈ tr, I e.post) ↔ ∀ e ∈ tr, ok e := by
  -- the two sides and the final state go together, or the last step has nothing to start from
  suffices H : ((∀ e ∈ tr, I e.post) ↔ ∀ e ∈ tr, ok e) ∧ ((∀ e ∈ tr, ok e) → I t) from H.1
  induction run with
  | nil => simpa using hinit
  | snoc _ h ih =>
      obtain ⟨hiff, hlast⟩ := ih
      simp only [List.mem_append, List.mem_singleton, or_imp, forall_and, forall_eq]
      refine ⟨⟨fun ⟨hall, hu⟩ => ?_, fun ⟨hall, hok⟩ => ?_⟩, fun ⟨hall, hok⟩ => ?_⟩
      · exact ⟨hiff.mp hall, (hstep _ _ _ (hlast (hiff.mp hall)) h).mp hu⟩
      · exact ⟨hiff.mpr hall, (hstep _ _ _ (hlast hall) h).mpr hok⟩
      · exact (hstep _ _ _ (hlast hall) h).mpr hok

/-- A run may be extended at its front. -/
theorem cons {u : σ} {l : ℓ} (hstep : step s l t) (run : Run step t tr u) :
    Run step s (⟨s, l, t⟩ :: tr) u := by
  induction run with
  | nil => exact nil.snoc hstep
  | snoc _ h ih => exact ih.snoc h

/-- The transitions of a list of labels, where the label determines the next
state. -/
def trace (exec : σ → ℓ → σ) : σ → List ℓ → List (Transition σ ℓ)
  | _, [] => []
  | s, l :: ls => ⟨s, l, exec s l⟩ :: trace exec (exec s l) ls

/-- Each label is enabled when its turn comes. -/
def AllEnabled (enabled : σ → ℓ → Prop) (exec : σ → ℓ → σ) : σ → List ℓ → Prop
  | _, [] => True
  | s, l :: ls => enabled s l ∧ AllEnabled enabled exec (exec s l) ls

theorem of_exec {enabled : σ → ℓ → Prop} {exec : σ → ℓ → σ} {ls : List ℓ}
    (h : AllEnabled enabled exec s ls) :
    Run (fun s l t => enabled s l ∧ t = exec s l) s (trace exec s ls) (ls.foldl exec s) := by
  induction ls generalizing s with
  | nil => exact nil
  | cons l ls ih => exact cons ⟨h.1, rfl⟩ (ih h.2)

/-- Where a list of labels leads, if each is enabled when its turn comes. -/
def follow (exec : σ → ℓ → Option σ) : σ → List ℓ → Option σ
  | s, [] => some s
  | s, l :: ls => (exec s l).bind fun t => follow exec t ls

theorem of_follow_labels {exec : σ → ℓ → Option σ} {ls : List ℓ} (h : follow exec s ls = some t) :
    ∃ tr, Run (fun s l t => exec s l = some t) s tr t ∧ tr.map Transition.label = ls := by
  induction ls generalizing s with
  | nil =>
      obtain rfl : s = t := Option.some.inj h
      exact ⟨[], nil, rfl⟩
  | cons l ls ih =>
      obtain ⟨u, hu, hrest⟩ := Option.bind_eq_some_iff.mp h
      obtain ⟨tr, run, hlabels⟩ := ih hrest
      exact ⟨_, cons hu run, by rw [List.map_cons, hlabels]⟩

theorem of_follow {exec : σ → ℓ → Option σ} {ls : List ℓ} (h : follow exec s ls = some t) :
    ∃ tr, Run (fun s l t => exec s l = some t) s tr t := by
  obtain ⟨tr, run, -⟩ := of_follow_labels h
  exact ⟨tr, run⟩

end Run

/-! ### Deterministic machines -/

/-- A deterministic machine: an input gives an output and the next state. -/
abbrev Machine (σ ι ο : Type*) := σ → ι → ο × σ

namespace Machine

variable {σ τ ι ο : Type*}

/-- The outputs of a machine on a list of inputs, and the state it ends in. -/
def run (M : Machine σ ι ο) : σ → List ι → List ο × σ
  | s, [] => ([], s)
  | s, i :: is => ((M s i).1 :: (run M (M s i).2 is).1, (run M (M s i).2 is).2)

@[simp] theorem run_nil (M : Machine σ ι ο) (s : σ) : M.run s [] = ([], s) := rfl

@[simp] theorem run_cons (M : Machine σ ι ο) (s : σ) (i : ι) (is : List ι) :
    M.run s (i :: is) =
      ((M s i).1 :: (M.run (M s i).2 is).1, (M.run (M s i).2 is).2) := rfl

/-- Related states which answer every allowed input alike and stay related give
the same outputs, and end related. -/
theorem run_eq {M : Machine σ ι ο} {N : Machine τ ι ο} {R : σ → τ → Prop} {allowed : ι → Prop}
    (hstep : ∀ s t i, R s t → allowed i → (M s i).1 = (N t i).1 ∧ R (M s i).2 (N t i).2)
    {s : σ} {t : τ} (h : R s t) (is : List ι) (hall : ∀ i ∈ is, allowed i) :
    (M.run s is).1 = (N.run t is).1 ∧ R (M.run s is).2 (N.run t is).2 := by
  induction is generalizing s t with
  | nil => exact ⟨rfl, h⟩
  | cons i is ih =>
      obtain ⟨hout, hnext⟩ := hstep s t i h (hall i (by simp))
      obtain ⟨houts, hlast⟩ := ih hnext fun j hj => hall j (by simp [hj])
      exact ⟨by simp [hout, houts], by simpa using hlast⟩

end Machine

end Nngpp.Lib
