import Mathlib.Data.Nat.Notation
import Mathlib.Logic.Function.Basic
import Nngpp.Core

/-!
The move-only wrappers of ids: `nng::socket`, `nng::ctx`, `nng::dialer`,
`nng::listener` and `nng::pipe`.

A wrapper has an id, zero for null, and its destructor closes it. What closing
does, and what it answers, is nng's affair: the members below are written over
any state of nng and any function on it that stands for the five close functions.

The members are one text, with one exception. When the move assignment closes the
old id and the answer is an error, it throws; but an answer of `closed` only says
that somebody else was faster, and four of the classes let it pass. The pipe does
not (`refuses`).
-/

namespace Nngpp.Ids

open Function

/-- The wrappers of each kind, with their ids, and nng. -/
structure World (O N : Type) where
  obj : Kind × O → Option ℕ
  nng : N

/-- A function for the five close functions of nng. -/
abbrev Close (N : Type) := Kind × ℕ → N → Error × N

abbrev Call (O N : Type) := EStateM Exception (World O N)

variable {O N : Type}

/-- The id of a wrapper. -/
def World.id (w : World O N) (k : Kind) (this : O) : ℕ := (w.obj (k, this)).getD 0

/-- The close function of a kind. -/
def closeSource : Kind → String
  | .socket => "nng_close"
  | .ctx => "nng_ctx_close"
  | .dialer => "nng_dialer_close"
  | .listener => "nng_listener_close"
  | .pipe => "nng_pipe_close"

def nngClose (close : Close N) (k : Kind) (id : ℕ) : Call O N Error :=
  modifyGet fun w => ((close (k, id) w.nng).1, { w with nng := (close (k, id) w.nng).2 })

variable [DecidableEq O]

def setId (k : Kind) (this : O) (id : ℕ) : Call O N Unit :=
  modify fun w => { w with obj := update w.obj (k, this) (some id) }

/-! ### The members -/

/-- `socket() = default`. -/
def default (k : Kind) (this : O) : Call O N Unit := setId k this 0

/-- `explicit socket( nng_socket s )`. -/
def adopt (k : Kind) (this : O) (id : ℕ) : Call O N Unit := setId k this id

/-- `socket( socket&& rhs )`. -/
def moveCtor (k : Kind) (this rhs : O) : Call O N Unit := do
  setId k this ((← get).id k rhs)
  setId k rhs 0

/-- `~socket()`. -/
def destroy (close : Close N) (k : Kind) (this : O) : Call O N Unit := do
  let id := (← get).id k this
  if id ≠ 0 then
    let _ ← nngClose close k id
  modify fun w => { w with obj := update w.obj (k, this) none }

/-- `release()`. -/
def release (k : Kind) (this : O) : Call O N ℕ := do
  let id := (← get).id k this
  setId k this 0
  return id

/-- The move assignment of four of the classes. -/
def moveAssignOf (close : Close N) (k : Kind) (this rhs : O) : Call O N Unit := do
  if this ≠ rhs then
    let id := (← get).id k this
    if id ≠ 0 then
      let r ← nngClose close k id
      if r ≠ .success ∧ r ≠ .closed then throw ⟨r, closeSource k⟩
    setId k this ((← get).id k rhs)
    setId k rhs 0

/-- `socket& socket::operator=( socket&& rhs )`. -/
def Socket.moveAssign (close : Close N) (this rhs : O) : Call O N Unit :=
  moveAssignOf close .socket this rhs

/-- `ctx& ctx::operator=( ctx&& rhs )`. -/
def Ctx.moveAssign (close : Close N) (this rhs : O) : Call O N Unit :=
  moveAssignOf close .ctx this rhs

/-- `dialer& dialer::operator=( dialer&& rhs )`. -/
def Dialer.moveAssign (close : Close N) (this rhs : O) : Call O N Unit :=
  moveAssignOf close .dialer this rhs

/-- `listener& listener::operator=( listener&& rhs )`. -/
def Listener.moveAssign (close : Close N) (this rhs : O) : Call O N Unit :=
  moveAssignOf close .listener this rhs

/-- `pipe& pipe::operator=( pipe&& rhs )`. -/
def Pipe.moveAssign (close : Close N) (this rhs : O) : Call O N Unit := do
  if this ≠ rhs then
    let id := (← get).id .pipe this
    if id ≠ 0 then
      let r ← nngClose close .pipe id
      check r (closeSource .pipe)
    setId .pipe this ((← get).id .pipe rhs)
    setId .pipe rhs 0

def moveAssign (close : Close N) : Kind → O → O → Call O N Unit
  | .socket => Socket.moveAssign close
  | .ctx => Ctx.moveAssign close
  | .dialer => Dialer.moveAssign close
  | .listener => Listener.moveAssign close
  | .pipe => Pipe.moveAssign close

/-- `std::swap`, with the local variable `tmp`, which is destroyed on every exit. -/
def swap (close closeTmp : Close N) (k : Kind) (a b tmp : O) : Call O N Unit := do
  moveCtor k tmp a
  try
    moveAssign close k a b
    moveAssign close k b tmp
  catch e =>
    destroy closeTmp k tmp
    throw e
  destroy closeTmp k tmp

/-! ### What the members do -/

/-- The answers of the close function that make a move assignment throw. -/
def refuses : Kind → Error → Bool
  | .pipe, r => r ≠ .success
  | _, r => r ≠ .success ∧ r ≠ .closed

/-- A move assignment as a function of the id the wrapper has, the id it is given,
and the answer of the close function: the ids that the two wrappers have
afterwards. -/
def assigned (k : Kind) (id rhs : ℕ) (r : Error) : Except Exception (ℕ × ℕ) :=
  if id ≠ 0 ∧ refuses k r then .error ⟨r, closeSource k⟩ else .ok (rhs, 0)

/-- nng after a move assignment has closed the id that the wrapper had. -/
def World.closeOld (w : World O N) (close : Close N) (k : Kind) (this : O) : World O N :=
  if w.id k this ≠ 0 then { w with nng := (close (k, w.id k this) w.nng).2 } else w

omit [DecidableEq O] in
@[simp] theorem World.id_mk (w : World O N) (n : N) (k : Kind) (this : O) :
    World.id ⟨w.obj, n⟩ k this = w.id k this := rfl

omit [DecidableEq O] in
@[simp] theorem World.obj_closeOld (w : World O N) (close : Close N) (k : Kind) (this : O) :
    (w.closeOld close k this).obj = w.obj := by
  simp only [World.closeOld]; split <;> rfl

omit [DecidableEq O] in
@[simp] theorem run_nngClose (close : Close N) (k : Kind) (id : ℕ) (w : World O N) :
    (nngClose close k id).run w =
      .ok (close (k, id) w.nng).1 { w with nng := (close (k, id) w.nng).2 } := rfl

@[simp] theorem run_setId (k : Kind) (this : O) (id : ℕ) (w : World O N) :
    (setId k this id).run w = .ok () { w with obj := update w.obj (k, this) (some id) } := rfl

theorem run_moveAssign_self (close : Close N) (k : Kind) (this : O) (w : World O N) :
    (moveAssign close k this this).run w = .ok () w := by
  cases k <;> simp [moveAssign, Socket.moveAssign, Ctx.moveAssign, Dialer.moveAssign,
    Listener.moveAssign, Pipe.moveAssign, moveAssignOf]

section MoveAssign

variable (close : Close N) {this rhs : O} (hne : this ≠ rhs) (w : World O N)

include hne

theorem run_moveAssignOf {k : Kind} (hk : k ≠ .pipe) :
    (moveAssignOf close k this rhs).run w =
      match assigned k (w.id k this) (w.id k rhs) (close (k, w.id k this) w.nng).1 with
      | .ok (a, b) => .ok () { w.closeOld close k this with
          obj := update (update w.obj (k, this) (some a)) (k, rhs) (some b) }
      | .error e => .error e (w.closeOld close k this) := by
  have hrefuses (r : Error) : refuses k r = true ↔ r ≠ .success ∧ r ≠ .closed := by
    cases k <;> simp_all [refuses]
  by_cases hid : w.id k this = 0
  · simp [moveAssignOf, hne, assigned, hid, World.closeOld]
  · by_cases hr : (close (k, w.id k this) w.nng).1 ≠ .success ∧
        (close (k, w.id k this) w.nng).1 ≠ .closed
    · simp [moveAssignOf, hne, assigned, hid, World.closeOld, hrefuses, hr]
    · rw [not_and_or, not_not, not_not] at hr
      rcases hr with hr | hr <;>
        simp [moveAssignOf, hne, assigned, hid, World.closeOld, hrefuses, hr]

theorem run_pipe_moveAssign :
    (Pipe.moveAssign close this rhs).run w =
      match assigned .pipe (w.id .pipe this) (w.id .pipe rhs)
        (close (.pipe, w.id .pipe this) w.nng).1 with
      | .ok (a, b) => .ok () { w.closeOld close .pipe this with
          obj := update (update w.obj (.pipe, this) (some a)) (.pipe, rhs) (some b) }
      | .error e => .error e (w.closeOld close .pipe this) := by
  by_cases hid : w.id .pipe this = 0
  · simp [Pipe.moveAssign, hne, assigned, hid, World.closeOld]
  · by_cases hr : (close (.pipe, w.id .pipe this) w.nng).1 = .success
    · simp [Pipe.moveAssign, hne, assigned, hid, World.closeOld, refuses, hr]
    · simp [Pipe.moveAssign, hne, assigned, hid, World.closeOld, refuses, hr, run_check_of_ne hr]

/-- Every move assignment closes the old id, and then throws, or moves the new id
over, as `assigned` says. -/
theorem run_moveAssign (k : Kind) :
    (moveAssign close k this rhs).run w =
      match assigned k (w.id k this) (w.id k rhs) (close (k, w.id k this) w.nng).1 with
      | .ok (a, b) => .ok () { w.closeOld close k this with
          obj := update (update w.obj (k, this) (some a)) (k, rhs) (some b) }
      | .error e => .error e (w.closeOld close k this) := by
  cases k with
  | pipe => exact run_pipe_moveAssign close hne w
  | _ => exact run_moveAssignOf close hne w nofun

/-- A null wrapper has nothing to close. -/
theorem run_moveAssign_null {k : Kind} (hid : w.id k this = 0) :
    (moveAssign close k this rhs).run w = .ok () { w with
      obj := update (update w.obj (k, this) (some (w.id k rhs))) (k, rhs) (some 0) } := by
  rw [run_moveAssign close hne]
  simp [assigned, hid, World.closeOld]

/-- An answer that is refused leaves both wrappers as they were. -/
theorem run_moveAssign_of_refuses {k : Kind} (hid : w.id k this ≠ 0)
    (hr : refuses k (close (k, w.id k this) w.nng).1 = true) :
    (moveAssign close k this rhs).run w =
      .error ⟨(close (k, w.id k this) w.nng).1, closeSource k⟩
        { w with nng := (close (k, w.id k this) w.nng).2 } := by
  rw [run_moveAssign close hne]
  simp [assigned, hid, hr, World.closeOld]

theorem run_moveAssign_of_accepts {k : Kind} (hid : w.id k this ≠ 0)
    (hr : refuses k (close (k, w.id k this) w.nng).1 = false) :
    (moveAssign close k this rhs).run w = .ok ()
      ⟨update (update w.obj (k, this) (some (w.id k rhs))) (k, rhs) (some 0),
        (close (k, w.id k this) w.nng).2⟩ := by
  rw [run_moveAssign close hne]
  simp [assigned, hid, hr, World.closeOld]

end MoveAssign

/-- What the destructor of a null wrapper does. -/
theorem run_destroy_null (close : Close N) {k : Kind} {this : O} {w : World O N}
    (hid : w.id k this = 0) :
    (destroy close k this).run w = .ok () { w with obj := update w.obj (k, this) none } := by
  simp [destroy, hid]

theorem run_moveCtor (k : Kind) {this rhs : O} (w : World O N) :
    (moveCtor k this rhs).run w = .ok () { w with
      obj := update (update w.obj (k, this) (some (w.id k rhs))) (k, rhs) (some 0) } := by
  simp [moveCtor]

/-- A swap exchanges the two ids and closes nothing: whenever one of its
assignments runs, the wrapper assigned to is null. -/
theorem run_swap (close closeTmp : Close N) (k : Kind) {a b tmp : O} {w : World O N}
    (ha : w.obj (k, a) ≠ none) (hb : w.obj (k, b) ≠ none) (htmp : w.obj (k, tmp) = none) :
    (swap close closeTmp k a b tmp).run w = .ok () { w with
      obj := update (update w.obj (k, a) (w.obj (k, b))) (k, b) (w.obj (k, a)) } := by
  obtain ⟨x, hx⟩ := Option.ne_none_iff_exists'.mp ha
  obtain ⟨y, hy⟩ := Option.ne_none_iff_exists'.mp hb
  have hta : tmp ≠ a := by rintro rfl; exact ha htmp
  have htb : tmp ≠ b := by rintro rfl; exact hb htmp
  have hxa : w.id k a = x := by simp [World.id, hx]
  let f := update (update w.obj (k, tmp) (some x)) (k, a) (some 0)
  have hctor : (moveCtor k tmp a).run w = .ok () { w with obj := f } := by
    rw [run_moveCtor, hxa]
  -- the first assignment leaves `b` null, and touches nothing but `a` and `b`
  obtain ⟨g, hfirst, hgb, hgtmp, hg⟩ : ∃ g, (moveAssign close k a b).run { w with obj := f } =
      .ok () { w with obj := g } ∧ g (k, b) = some 0 ∧ g (k, tmp) = some x ∧
      ∀ p, p ≠ (k, b) → p ≠ (k, tmp) → g p = update w.obj (k, a) (some y) p := by
    rcases eq_or_ne a b with rfl | hab
    · refine ⟨f, run_moveAssign_self close k a _, by simp [f], by simp [f, hta], ?_⟩
      intro p hp hptmp
      simp [f, hp, hptmp]
    · refine ⟨update (update f (k, a) (some y)) (k, b) (some 0), ?_, by simp, by simp [f, hta, htb],
        ?_⟩
      · rw [run_moveAssign_null close hab _ (by simp [World.id, f])]
        simp [World.id, f, hy, Ne.symm hab, Ne.symm htb]
      · intro p hp hptmp
        by_cases hpa : p = (k, a)
        · subst hpa; simp [hab]
        · simp [f, hp, hpa, hptmp]
  have hsecond : (moveAssign close k b tmp).run { w with obj := g } =
      .ok () { w with obj := update (update g (k, b) (some x)) (k, tmp) (some 0) } := by
    rw [run_moveAssign_null close (Ne.symm htb) _ (by simp [World.id, hgb])]
    simp [World.id, hgtmp]
  have hdestroy : (destroy closeTmp k tmp).run
        { w with obj := update (update g (k, b) (some x)) (k, tmp) (some 0) } =
      .ok () { w with obj := update (update g (k, b) (some x)) (k, tmp) none } := by
    rw [run_destroy_null closeTmp (by simp [World.id])]
    simp
  have hbody : (do moveAssign close k a b; moveAssign close k b tmp : Call O N Unit).run
        { w with obj := f } =
      .ok () { w with obj := update (update g (k, b) (some x)) (k, tmp) (some 0) } := by
    rw [run_bind_of_ok hfirst, hsecond]
  have hobj : update (update g (k, b) (some x)) (k, tmp) none =
      update (update w.obj (k, a) (w.obj (k, b))) (k, b) (w.obj (k, a)) := by
    funext p
    by_cases hptmp : p = (k, tmp)
    · subst hptmp; simp [hta, htb, htmp]
    by_cases hpb : p = (k, b)
    · subst hpb; simp [Ne.symm htb, hx]
    · rw [update_of_ne hptmp, update_of_ne hpb, update_of_ne hpb, hg p hpb hptmp, hy]
  have htry (handler : Exception → Call O N Unit) :
      (tryCatch (do moveAssign close k a b; moveAssign close k b tmp) handler).run
          { w with obj := f } =
        .ok () { w with obj := update (update g (k, b) (some x)) (k, tmp) (some 0) } := by
    rw [run_tryCatch, hbody]
  rw [swap, run_bind_of_ok hctor, run_bind_of_ok (htry _), hdestroy, hobj]

end Nngpp.Ids
