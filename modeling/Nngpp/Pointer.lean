import Nngpp.Lib.Custody

/-!
The members that every RAII class over a pointer handle has.

`msg`, `url`, `aio`, `tls::config`, `http::handler` and the rest differ in how a
handle is acquired, but default construction, construction from a handle, both
moves, `release()` and the destructor are the same text with another free
function. They are written here once, as functions on the table of the objects
of the class; the destructive ones also return the pointer that the code hands
to the free function, or to the caller.

An object that does not exist is `none`, an object whose handle is `nullptr` is
`some none`.
-/

namespace Nngpp.Pointer

open Function Lib

variable {O H C : Type*}

/-- The objects of one class. -/
abbrev Table (O H : Type*) := O → Option (Option H)

/-- `get()`. -/
def get (t : Table O H) (o : O) : Option H := (t o).join

@[simp] theorem get_none : get (fun _ : O => none : Table O H) = fun _ => none := rfl

variable [DecidableEq O]

@[simp] theorem get_update (t : Table O H) (o : O) (x : Option (Option H)) :
    get (update t o x) = update (get t) o x.join := by
  funext p
  rcases eq_or_ne p o with rfl | hp
  · simp [get]
  · simp [get, hp]

/-- `T() = default`. -/
def default (t : Table O H) (this : O) : Table O H := update t this (some none)

/-- `explicit T( nng_T* p )`. -/
def adopt (t : Table O H) (this : O) (p : Option H) : Table O H := update t this (some p)

/-- `T( T&& rhs )`. -/
def moveCtor (t : Table O H) (this rhs : O) : Table O H :=
  update (update t this (some (get t rhs))) rhs (some none)

/-- `T& operator=( T&& rhs )`, and the pointer it frees. -/
def moveAssign (t : Table O H) (this rhs : O) : Table O H × Option H :=
  if this ≠ rhs then
    (update (update t this (some (get t rhs))) rhs (some none), get t this)
  else (t, none)

/-- `~T()`, and the pointer it frees. -/
def destroy (t : Table O H) (this : O) : Table O H × Option H := (update t this none, get t this)

/-- `release()`, and the pointer it returns. -/
def release (t : Table O H) (this : O) : Table O H × Option H :=
  (update t this (some none), get t this)

@[simp] theorem moveAssign_self (t : Table O H) (this : O) : moveAssign t this this = (t, none) := by
  simp [moveAssign]

theorem moveAssign_of_ne (t : Table O H) {this rhs : O} (h : this ≠ rhs) :
    moveAssign t this rhs =
      (update (update t this (some (get t rhs))) rhs (some none), get t this) := by
  simp [moveAssign, h]

/-! ### Custody

Each member keeps custody of the handles; where it frees one, it is one that the
object held and that no object holds afterwards. -/

section Custody

variable {t : Table O H} {heap : H → Option C}

theorem custody_default (h : Custody (get t) heap) (this : O) :
    Custody (get (default t this)) heap := by
  simpa [default] using h.drop this

theorem custody_adopt (h : Custody (get t) heap) {this : O} {p : Option H}
    (hp : ∀ x, p = some x → heap x ≠ none ∧ ∀ o, get t o ≠ some x) :
    Custody (get (adopt t this p)) heap := by
  cases p with
  | none => simpa [adopt] using h.drop this
  | some x =>
      obtain ⟨hlive, hfree⟩ := hp x rfl
      simpa [adopt] using h.take hlive fun o _ => hfree o

theorem custody_moveCtor (h : Custody (get t) heap) {this rhs : O} (hne : this ≠ rhs) :
    Custody (get (moveCtor t this rhs)) heap := by
  simpa [moveCtor] using h.move hne

theorem custody_release (h : Custody (get t) heap) (this : O) :
    Custody (get (release t this).1) heap := by
  simpa [release] using h.drop this

theorem custody_moveAssign (h : Custody (get t) heap) (this rhs : O) :
    Custody (get (moveAssign t this rhs).1) heap := by
  by_cases hne : this = rhs
  · simpa [hne] using h
  · simpa [moveAssign_of_ne t hne] using h.move hne

theorem custody_destroy (h : Custody (get t) heap) (this : O) :
    Custody (get (destroy t this).1) heap := by
  simpa [destroy] using h.drop this

/-- What the move assignment frees was live, and no object holds it any more. -/
theorem moveAssign_frees (h : Custody (get t) heap) {this rhs : O} {x : H}
    (hx : (moveAssign t this rhs).2 = some x) :
    heap x ≠ none ∧ ∀ o, get (moveAssign t this rhs).1 o ≠ some x := by
  by_cases hne : this = rhs
  · simp [hne] at hx
  · rw [moveAssign_of_ne t hne] at hx
    refine ⟨h.live hx, fun o => ?_⟩
    simp only [moveAssign_of_ne t hne, get_update, Option.join_some]
    rcases eq_or_ne o rhs with rfl | hor
    · simp
    · rw [update_of_ne hor]
      rcases eq_or_ne o this with rfl | hot
      · rw [update_self]
        exact h.not_held_elsewhere hx (Ne.symm hne)
      · rw [update_of_ne hot]
        exact h.not_held_elsewhere hx hot

/-- What the destructor frees was live, and no object holds it any more. -/
theorem destroy_frees (h : Custody (get t) heap) {this : O} {x : H}
    (hx : (destroy t this).2 = some x) :
    heap x ≠ none ∧ ∀ o, get (destroy t this).1 o ≠ some x := by
  refine ⟨h.live hx, fun o => ?_⟩
  simp only [destroy, get_update, Option.join_none]
  rcases eq_or_ne o this with rfl | hot
  · simp
  · rw [update_of_ne hot]
    exact h.not_held_elsewhere hx hot

end Custody

end Nngpp.Pointer
