import Mathlib.Data.Int.Notation

/-!
Error codes, exceptions, and the kinds of objects.

Every nng function that can fail returns a code, zero meaning success, and every
nngpp wrapper of such a function throws the code it got, with the name of the
function. Codes are kept as the constants of `enum class error`; `other` is for
the integers the enumeration can hold without naming them.
-/

namespace Nngpp

/-- `enum class error`, and the codes it does not name. -/
inductive Error
  | success | intr | nomem | inval | busy | timedout | connrefused | closed | again | notsup
  | addrinuse | state | noent | proto | unreachable | addrinval | perm | msgsize | connaborted
  | connreset | canceled | nofiles | nospc | exist | readonly | writeonly | crypto | peerauth
  | noarg | ambiguous | badtype | connshut | internal | syserr | tranerr
  | other (code : ℤ)
  deriving DecidableEq, Repr

/-- `class exception`: the code, and the nng function that returned it. -/
structure Exception where
  err : Error
  source : String
  deriving DecidableEq, Repr

namespace Exception

def getError (e : Exception) : Error := e.err

def who (e : Exception) : String := e.source

end Exception

/-- The kinds of objects that nng knows by an id. -/
inductive Kind
  | socket | ctx | dialer | listener | pipe
  deriving DecidableEq, Repr

/-- A code that reports a failure. -/
abbrev Failure := { e : Error // e ≠ .success }

/-- What an nng function that can fail does on one call: it hands something over,
or it fails and leaves its output argument unwritten. -/
abbrev Answer (α : Type*) := Except Failure α

/-- The code an nng function returns. -/
def Answer.code {α : Type*} : Answer α → Error
  | .ok _ => .success
  | .error e => e.val

@[simp] theorem Answer.code_ok {α : Type*} (a : α) : Answer.code (.ok a) = .success := rfl

@[simp] theorem Answer.code_error {α : Type*} (e : Failure) :
    Answer.code (.error e : Answer α) = e.val := rfl

/-! ### Calls

A C++ function is a computation in `EStateM Exception σ`: it changes the state,
and it returns or throws. What it has done before it throws stays done. -/

section Sequencing

variable {σ α β : Type} {s s' : σ} {a : α} {e : Exception} {x : EStateM Exception σ α}

theorem run_bind_of_ok (h : x.run s = .ok a s') (f : α → EStateM Exception σ β) :
    (x >>= f).run s = (f a).run s' := by
  simp [h]

theorem run_bind_of_error (h : x.run s = .error e s') (f : α → EStateM Exception σ β) :
    (x >>= f).run s = .error e s' := by
  simp [h]

theorem run_map_of_ok (h : x.run s = .ok a s') (f : α → β) : (f <$> x).run s = .ok (f a) s' := by
  rw [← bind_pure_comp, run_bind_of_ok h]
  rfl

theorem run_map_of_error (h : x.run s = .error e s') (f : α → β) :
    (f <$> x).run s = .error e s' := by
  rw [← bind_pure_comp, run_bind_of_error h]

end Sequencing

/-- `if( r != 0 ) throw exception(r,source);`, the idiom of every wrapper. -/
def check {σ : Type} (r : Error) (source : String) : EStateM Exception σ Unit :=
  if r ≠ .success then throw ⟨r, source⟩ else pure ()

@[simp] theorem run_check_success {σ : Type} (source : String) (s : σ) :
    (check .success source).run s = .ok () s := rfl

theorem run_check_of_ne {σ : Type} {r : Error} (h : r ≠ .success) (source : String) (s : σ) :
    (check r source).run s = .error ⟨r, source⟩ s := by
  simp [check, h]

@[simp] theorem run_check_failure {σ : Type} (e : Failure) (source : String) (s : σ) :
    (check e.val source).run s = .error ⟨e.val, source⟩ s :=
  run_check_of_ne e.property source s

/-- The output of an nng function that succeeded; the exception of one that
failed. -/
def orThrow {σ α : Type} (a : Answer α) (source : String) : EStateM Exception σ α :=
  match a with
  | .ok out => pure out
  | .error e => throw ⟨e.val, source⟩

@[simp] theorem run_orThrow_ok {σ α : Type} (a : α) (source : String) (s : σ) :
    (orThrow (.ok a) source).run s = .ok a s := rfl

@[simp] theorem run_orThrow_error {σ α : Type} (e : Failure) (source : String) (s : σ) :
    (orThrow (.error e : Answer α) source).run s = .error ⟨e.val, source⟩ s := rfl

/-- A handler starts from the state its body left: nothing is rolled back. -/
theorem run_tryCatch {σ α : Type} (x : EStateM Exception σ α)
    (handler : Exception → EStateM Exception σ α) (s : σ) :
    (tryCatch x handler).run s =
      match x.run s with
      | .ok a s' => .ok a s'
      | .error e s' => (handler e).run s' := by
  change EStateM.tryCatch x handler s = _
  delta EStateM.tryCatch EStateM.run
  cases x s <;> rfl

/-- A call which, when it throws, has part of its work undone on the way out. -/
def withUndo {σ : Type} (undo : σ → σ) (body : EStateM Exception σ Unit) :
    EStateM Exception σ Unit := do
  try body
  catch e =>
    modify undo
    throw e

@[simp] theorem run_withUndo {σ : Type} (undo : σ → σ) (body : EStateM Exception σ Unit) (s : σ) :
    (withUndo undo body).run s =
      match body.run s with
      | .ok a s' => .ok a s'
      | .error e s' => .error e (undo s') := by
  rw [withUndo, run_tryCatch]
  cases body.run s <;> rfl

/-- The state a call leaves, whether it returns or throws. -/
def leaves {σ α : Type} (x : EStateM Exception σ α) (s : σ) : σ :=
  match x.run s with
  | .ok _ s' => s'
  | .error _ s' => s'

theorem leaves_of_ok {σ α : Type} {x : EStateM Exception σ α} {s s' : σ} {a : α}
    (h : x.run s = .ok a s') : leaves x s = s' := by
  simp [leaves, h]

theorem leaves_of_error {σ α : Type} {x : EStateM Exception σ α} {s s' : σ} {e : Exception}
    (h : x.run s = .error e s') : leaves x s = s' := by
  simp [leaves, h]

/-- A call that works on one part of a larger state. -/
def within {σ τ α : Type} (view : σ → τ) (put : σ → τ → σ) (x : EStateM Exception τ α) :
    EStateM Exception σ α := fun w =>
  match x.run (view w) with
  | .ok a t => .ok a (put w t)
  | .error e t => .error e (put w t)

section Within

variable {σ τ α : Type} {view : σ → τ} {put : σ → τ → σ} {x : EStateM Exception τ α} {w : σ} {t : τ}

theorem run_within_ok {a : α} (h : x.run (view w) = .ok a t) :
    (within view put x).run w = .ok a (put w t) := by
  simp only [within, EStateM.run] at h ⊢
  rw [h]

theorem run_within_error {e : Exception} (h : x.run (view w) = .error e t) :
    (within view put x).run w = .error e (put w t) := by
  simp only [within, EStateM.run] at h ⊢
  rw [h]

theorem within_bind {β : Type} (f : α → EStateM Exception τ β) (hview : ∀ w t, view (put w t) = t)
    (hput : ∀ w t u, put (put w t) u = put w u) :
    (within view put (x >>= f)).run w =
      (within view put x >>= fun a => within view put (f a)).run w := by
  cases h : x.run (view w) with
  | ok a t =>
      rw [run_bind_of_ok (run_within_ok h)]
      cases h' : (f a).run t with
      | ok b u =>
          have hf : (within view put (f a)).run (put w t) = .ok b (put (put w t) u) :=
            run_within_ok (by rwa [hview])
          rw [hf, hput]
          exact run_within_ok (by rw [run_bind_of_ok h, h'])
      | error e u =>
          have hf : (within view put (f a)).run (put w t) = .error e (put (put w t) u) :=
            run_within_error (by rwa [hview])
          rw [hf, hput]
          exact run_within_error (by rw [run_bind_of_ok h, h'])
  | error e t =>
      rw [run_bind_of_error (run_within_error h)]
      exact run_within_error (run_bind_of_error h f)

theorem leaves_within : leaves (within view put x) w = put w (leaves x (view w)) := by
  simp only [leaves, within, EStateM.run]
  cases x (view w) <;> rfl

end Within

end Nngpp
