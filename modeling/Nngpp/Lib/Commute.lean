import Nngpp.Lib.Prog
import Nngpp.Lib.Run

/-!
Systems in which the order of the steps does not matter.

Each agent of a system can take at most one step at a time. When the steps of two
agents never get in each other's way (`Commutes`), all the ways to schedule the
system come to the same: if one schedule ends where nobody can go on, then every
other one can be completed to end in the same state, after the same number of
steps (`Commutes.complete`). So it is enough to find one schedule, and no
scheduler can run into a dead end that another one avoids.

A pool of threads is such a system when the actions of its programs are
independent of each other (`Pool.commutes`).
-/

namespace Nngpp.Lib

section Schedules

variable {σ T : Type*} {step : σ → T → Option σ} {I : σ → Prop}

/-- The step of one agent does not take the step of another one away, and it makes
no difference to it. -/
structure Commutes (step : σ → T → Option σ) (I : σ → Prop) : Prop where
  kept : ∀ {s t s'}, I s → step s t = some s' → I s'
  swap : ∀ {s t u s₁ s₂}, I s → t ≠ u → step s t = some s₁ → step s u = some s₂ →
    ∃ s₃, step s₁ u = some s₃ ∧ step s₂ t = some s₃

/-- Nobody can go on. -/
def Stuck (step : σ → T → Option σ) (s : σ) : Prop := ∀ t, step s t = none

variable {s y z : σ} {ls ks : List T}

theorem follow_append {ls ms : List T} :
    Run.follow step s (ls ++ ms) = (Run.follow step s ls).bind fun t => Run.follow step t ms := by
  induction ls generalizing s with
  | nil => rfl
  | cons l ls ih =>
      simp only [List.cons_append, Run.follow, ih, Option.bind_assoc]

namespace Commutes

/-- A step at the beginning is one of the steps that are to be taken anyhow. -/
theorem step_first (h : Commutes step I) (hs : I s) (hstuck : Stuck step z)
    (hz : Run.follow step s ls = some z) {t : T} (ht : step s t = some y) :
    ∃ ms, Run.follow step y ms = some z ∧ ms.length + 1 = ls.length := by
  induction ls generalizing s y with
  | nil =>
      obtain rfl : s = z := Option.some.inj hz
      rw [hstuck t] at ht
      cases ht
  | cons u ls ih =>
      obtain ⟨s₁, hu, hrest⟩ := Option.bind_eq_some_iff.mp hz
      by_cases htu : t = u
      · subst htu
        obtain rfl : y = s₁ := Option.some.inj (ht.symm.trans hu)
        exact ⟨ls, hrest, rfl⟩
      · -- the step is put off behind that of the other agent
        obtain ⟨s₂, hyu, h₁t⟩ := h.swap hs htu ht hu
        obtain ⟨ms, hms, hlength⟩ := ih (h.kept hs hu) hrest h₁t
        refine ⟨u :: ms, ?_, by simpa using hlength⟩
        rw [Run.follow, hyu]
        exact hms

/-- A schedule that has been begun in any way can be completed. -/
theorem complete (h : Commutes step I) (hs : I s) (hstuck : Stuck step z)
    (hz : Run.follow step s ls = some z) (hy : Run.follow step s ks = some y) :
    ∃ ms, Run.follow step y ms = some z ∧ ks.length + ms.length = ls.length := by
  induction ks generalizing s ls with
  | nil =>
      obtain rfl : s = y := Option.some.inj hy
      exact ⟨ls, hz, by simp⟩
  | cons t ks ih =>
      obtain ⟨s₁, ht, hrest⟩ := Option.bind_eq_some_iff.mp hy
      obtain ⟨ms, hms, hlength⟩ := h.step_first hs hstuck hz ht
      obtain ⟨ns, hns, hlength'⟩ := ih (h.kept hs ht) hms hrest
      refine ⟨ns, hns, ?_⟩
      simp only [List.length_cons]
      omega

end Commutes

end Schedules

/-! ### Programs -/

namespace Prog

variable {T ι σ ε α β : Type}

/-- All the actions of a program, wherever it gets to. -/
def All (A : ∀ {β : Type}, (T → ι → σ → Option (β × σ)) → Prop) : Prog T ι σ α → Prop
  | .pure _ => True
  | .act f k => A f ∧ ∀ b, (k b).All A
  | .halt => True

namespace All

variable {A : ∀ {β : Type}, (T → ι → σ → Option (β × σ)) → Prop}

theorem bind {p : Prog T ι σ α} {g : α → Prog T ι σ β} (hp : p.All A) (hg : ∀ a, (g a).All A) :
    (p >>= g).All A := by
  induction p with
  | pure a => exact hg a
  | act f k ih => exact ⟨hp.1, fun b => ih b (hp.2 b)⟩
  | halt => trivial

theorem bind_code {x : Code T ι σ ε α} {g : α → Code T ι σ ε β} (hx : x.run.All A)
    (hg : ∀ a, (g a).run.All A) : (x >>= g).run.All A := by
  apply All.bind hx
  rintro (e | a)
  · trivial
  · exact hg a

theorem act_code {f : T → ι → σ → Option (β × σ)} (hf : A f) :
    (Code.act f : Code T ι σ ε β).run.All A :=
  ⟨hf, fun _ => trivial⟩

theorem orExit {x : Code T ι σ ε α} (hx : x.run.All A) : x.orExit.All A := by
  apply All.bind hx
  rintro (e | a) <;> trivial

end All

end Prog

/-! ### Pools -/

/-- Two actions for different threads, with the same answer of the environment:
either order has the same effect and the same results. -/
def Independent {T ι σ β γ : Type} (i : ι) (f : T → ι → σ → Option (β × σ))
    (g : T → ι → σ → Option (γ × σ)) : Prop :=
  ∀ {t u s b s₁ c s₂}, t ≠ u → f t i s = some (b, s₁) → g u i s = some (c, s₂) →
    ∃ s₃, g u i s₁ = some (c, s₃) ∧ f t i s₂ = some (b, s₃)

namespace Pool

variable {T ι σ : Type} [DecidableEq T]

/-- The program of each thread is made of these actions. -/
def All (A : ∀ {β : Type}, (T → ι → σ → Option (β × σ)) → Prop) (w : Pool T ι σ) : Prop :=
  ∀ t p, w.code t = some p → p.All A

variable {A : ∀ {β : Type}, (T → ι → σ → Option (β × σ)) → Prop} {w w' : Pool T ι σ}

theorem All.run (h : w.All A) {t : T} {i : ι} (hrun : w.run t i = some w') : w'.All A := by
  cases hcode : w.code t with
  | none => simp [Pool.run, hcode] at hrun
  | some p =>
      cases p with
      | pure a => simp [Pool.run, hcode] at hrun
      | halt =>
          simp only [Pool.run, hcode, Option.some.injEq] at hrun
          rw [← hrun]
          exact h
      | act f k =>
          simp only [Pool.run, hcode, Option.map_eq_some_iff] at hrun
          obtain ⟨⟨b, s⟩, -, rfl⟩ := hrun
          intro u q hu
          by_cases hut : u = t
          · subst hut
            simp only [Function.update_self, Option.some.injEq] at hu
            rw [← hu]
            exact (h u _ hcode).2 b
          · simp only [Function.update_of_ne hut] at hu
            exact h u q hu

/-- What every action respects, every step of a thread respects. -/
theorem All.respects {R : σ → σ → Prop} (hrefl : ∀ s, R s s)
    (hA : ∀ {β : Type} {f : T → ι → σ → Option (β × σ)}, A f →
      ∀ t i s b s', f t i s = some (b, s') → R s s')
    (h : w.All A) {t : T} {i : ι} (hrun : w.run t i = some w') : R w.shared w'.shared := by
  cases hcode : w.code t with
  | none => simp [Pool.run, hcode] at hrun
  | some p =>
      cases p with
      | pure a => simp [Pool.run, hcode] at hrun
      | halt =>
          simp only [Pool.run, hcode, Option.some.injEq] at hrun
          rw [← hrun]
          exact hrefl w.shared
      | act f k =>
          simp only [Pool.run, hcode, Option.map_eq_some_iff] at hrun
          obtain ⟨⟨b, s⟩, hf, rfl⟩ := hrun
          exact hA (h t _ hcode).1 t i w.shared b s hf

theorem All.spawn (h : w.All A) {t : T} {p : Prog T ι σ Unit} (hp : p.All A) (s : σ) :
    (w.spawn t p s).All A := by
  intro u q hu
  by_cases hut : u = t
  · subst hut
    simp only [Pool.spawn, Function.update_self, Option.some.injEq] at hu
    rwa [← hu]
  · simp only [Pool.spawn, Function.update_of_ne hut] at hu
    exact h u q hu

/-- What a thread does depends on its own program and the shared state only. -/
theorem run_eq_some {t : T} {i : ι} : w.run t i = some w' ↔
    (w.code t = some .halt ∧ w' = { w with exited := true }) ∨
      ∃ (β : Type) (f : T → ι → σ → Option (β × σ)) (k : β → Prog T ι σ Unit) (b : β) (s : σ),
        w.code t = some (.act f k) ∧ f t i w.shared = some (b, s) ∧
          w' = { w with shared := s, code := Function.update w.code t (some (k b)) } := by
  constructor
  · intro hrun
    cases hcode : w.code t with
    | none => simp [Pool.run, hcode] at hrun
    | some p =>
        cases p with
        | pure a => simp [Pool.run, hcode] at hrun
        | halt =>
            simp only [Pool.run, hcode, Option.some.injEq] at hrun
            exact .inl ⟨rfl, hrun.symm⟩
        | act f k =>
            simp only [Pool.run, hcode, Option.map_eq_some_iff] at hrun
            obtain ⟨⟨b, s⟩, hf, hw'⟩ := hrun
            exact .inr ⟨_, f, k, b, s, rfl, hf, hw'.symm⟩
  · rintro (⟨hcode, rfl⟩ | ⟨β, f, k, b, s, hcode, hf, rfl⟩)
    · simp [Pool.run, hcode]
    · simp [Pool.run, hcode, hf]

/-- Threads whose actions are independent can be scheduled in any way. -/
theorem commutes (i : ι)
    (hA : ∀ {β γ : Type} {f : T → ι → σ → Option (β × σ)} {g : T → ι → σ → Option (γ × σ)},
      A f → A g → Independent i f g) :
    Commutes (fun w : Pool T ι σ => fun t => w.run t i) (All A) where
  kept h hrun := h.run hrun
  swap {w t u w₁ w₂} h htu ht hu := by
    have hut : u ≠ t := fun heq => htu heq.symm
    obtain ⟨hcode, rfl⟩ | ⟨β, f, k, b, s, hcode, hf, rfl⟩ := run_eq_some.mp ht
    · obtain ⟨hcode', rfl⟩ | ⟨γ, g, k', c, s', hcode', hg, rfl⟩ := run_eq_some.mp hu
      · exact ⟨_, run_eq_some.mpr (.inl ⟨hcode', rfl⟩), run_eq_some.mpr (.inl ⟨hcode, rfl⟩)⟩
      · refine ⟨_, run_eq_some.mpr (.inr ⟨γ, g, k', c, s', hcode', hg, rfl⟩),
          run_eq_some.mpr (.inl ⟨?_, rfl⟩)⟩
        simpa [Function.update_of_ne htu] using hcode
    · obtain ⟨hcode', rfl⟩ | ⟨γ, g, k', c, s', hcode', hg, rfl⟩ := run_eq_some.mp hu
      · refine ⟨_, run_eq_some.mpr (.inl ⟨?_, rfl⟩),
          run_eq_some.mpr (.inr ⟨β, f, k, b, s, hcode, hf, rfl⟩)⟩
        simpa [Function.update_of_ne hut] using hcode'
      · obtain ⟨s₃, hg₃, hf₃⟩ := hA (h t _ hcode).1 (h u _ hcode').1 htu hf hg
        refine ⟨{ w with
            shared := s₃
            code := Function.update (Function.update w.code t (some (k b))) u (some (k' c)) },
          run_eq_some.mpr (.inr ⟨γ, g, k', c, s₃, ?_, hg₃, rfl⟩),
          run_eq_some.mpr (.inr ⟨β, f, k, b, s₃, ?_, hf₃, ?_⟩)⟩
        · simpa [Function.update_of_ne hut] using hcode'
        · simpa [Function.update_of_ne htu] using hcode
        · rw [Function.update_comm htu]

end Pool

end Nngpp.Lib
