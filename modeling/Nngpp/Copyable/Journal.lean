import Nngpp.Copyable.Safety

/-!
The two copies, with a journal of what they ask of nng.

A copy of a null object is a matter between nngpp and nng: nothing is wrong with
the objects, but `nng_msg_dup` and `nng_url_clone` read the handle that they are
given, and are given none. The text of the copies is therefore repeated here over
nng functions which write down what they are asked, and whether the handle was
live at that moment. Without the journal it is the text of the model
(`erases_copyCtor`, `erases_copyAssign`).
-/

namespace Nngpp.Copyable

open Function Lib

/-- What a copy asks of nng, and whether the handle it passes was live. -/
inductive Asked (H : Type)
  | free (h : H) (live : Bool)
  | dup (src : Option H) (live : Bool)
  deriving DecidableEq

/-- nng is asked what it may be asked: the handle is there, and live. -/
def Asked.Proper {H : Type} : Asked H → Prop
  | free _ live => live = true
  | dup src live => src ≠ none ∧ live = true

structure Journal (O H C : Type) where
  world : World O H C
  asked : List (Asked H)

namespace Journal

variable {O H C : Type}

abbrev Call (O H C : Type) := EStateM Exception (Journal O H C)

def note (q : World O H C → Asked H) : Call O H C Unit :=
  modify fun j => { j with asked := j.asked ++ [q j.world] }

def onWorld {α : Type} (x : Copyable.Call O H C α) : Call O H C α :=
  within Journal.world (fun j w => { j with world := w }) x

/-! ### Forgetting the journal -/

/-- The outcome of a call without its journal. -/
def erase {α : Type} : EStateM.Result Exception (Journal O H C) α →
    EStateM.Result Exception (World O H C) α
  | .ok a j => .ok a j.world
  | .error e j => .error e j.world

/-- One call does what the other does, whatever is in the journal. -/
def Erases {α : Type} (x : Call O H C α) (y : Copyable.Call O H C α) : Prop :=
  ∀ j, erase (x.run j) = y.run j.world

namespace Erases

variable {α β : Type}

theorem onWorld (y : Copyable.Call O H C α) : Erases (Journal.onWorld y) y := by
  intro j
  simp only [Journal.onWorld, within, EStateM.run]
  cases y j.world <;> rfl

theorem pure (a : α) : Erases (Pure.pure a : Call O H C α) (Pure.pure a) := fun _ => rfl

theorem bind {x : Call O H C α} {y : Copyable.Call O H C α} {f : α → Call O H C β}
    {g : α → Copyable.Call O H C β} (h : Erases x y) (hf : ∀ a, Erases (f a) (g a)) :
    Erases (x >>= f) (y >>= g) := by
  intro j
  have hj := h j
  cases hx : x.run j with
  | ok a j' =>
      rw [hx] at hj
      rw [run_bind_of_ok hx, run_bind_of_ok hj.symm]
      exact hf a j'
  | error e j' =>
      rw [hx] at hj
      rw [run_bind_of_error hx, run_bind_of_error hj.symm]
      rfl

/-- A note leaves no trace in the world. -/
theorem note {q : World O H C → Asked H} {x : Call O H C α} {y : Copyable.Call O H C α}
    (h : Erases x y) : Erases (Journal.note q >>= fun _ => x) y := by
  intro j
  have hnote : (Journal.note q).run j = .ok () ⟨j.world, j.asked ++ [q j.world]⟩ := rfl
  rw [run_bind_of_ok hnote]
  exact h _

theorem check (r : Error) (source : String) :
    Erases (Nngpp.check r source : Call O H C Unit) (Nngpp.check r source) := by
  intro j
  rcases eq_or_ne r .success with rfl | hr
  · rfl
  · rw [run_check_of_ne hr, run_check_of_ne hr]
    rfl

end Erases

variable [DecidableEq O] [DecidableEq H]

/-! ### nng -/

/-- `if( m != nullptr ) nng_msg_free(m);`. -/
def freeIf : Option H → Call O H C Unit
  | none => pure ()
  | some h => do
      note fun w => .free h (w.heap h).isSome
      onWorld (modify fun w => w.free h)

/-- `nng_msg_dup(&m,src)`, `nng_url_clone(&u,src)`. -/
def nngDup (this : O) (src : Option H) (ans : Answer H) : Call O H C Error := do
  note fun w => .dup src (src.bind w.heap).isSome
  onWorld (Copyable.nngDup this src ans)

/-! ### The members -/

def field (this : O) : Call O H C (Option H) := onWorld (Copyable.field this)

def construct (this : O) (body : Call O H C Unit) : Call O H C Unit := do
  onWorld (modify fun w => { w with obj := Pointer.default w.obj this })
  withUndo (fun j => { j with world := { j.world with obj := update j.world.obj this none } }) body

/-- `msg( const msg& rhs )`. -/
def copyCtor (n : Names) (this rhs : O) (ans : Answer H) : Call O H C Unit :=
  construct this do
    let r ← nngDup this (← field rhs) ans
    check r n.copyCtor

/-- `msg& operator=( const msg& rhs )`. -/
def copyAssign (n : Names) (this rhs : O) (ans : Answer H) : Call O H C Unit := do
  if this ≠ rhs then
    let m ← field this
    freeIf m
    let r ← nngDup this (← field rhs) ans
    check r n.copyAssign

omit [DecidableEq H] in
theorem erases_construct (this : O) {x : Call O H C Unit} {y : Copyable.Call O H C Unit}
    (h : Erases x y) : Erases (construct this x) (Copyable.construct this y) := by
  apply (Erases.onWorld _).bind
  intro _ j
  have hj := h j
  rw [run_withUndo, run_withUndo, ← hj]
  cases x.run j <;> rfl

theorem erases_copyCtor (n : Names) (this rhs : O) (ans : Answer H) :
    Erases (copyCtor n this rhs ans : Call O H C Unit) (Copyable.copyCtor n this rhs ans) := by
  apply erases_construct
  apply (Erases.onWorld _).bind
  intro src
  apply (Erases.onWorld _).note.bind
  intro r
  exact Erases.check r n.copyCtor

theorem erases_copyAssign (n : Names) (this rhs : O) (ans : Answer H) :
    Erases (copyAssign n this rhs ans : Call O H C Unit) (Copyable.copyAssign n this rhs ans) := by
  rcases eq_or_ne this rhs with rfl | hne
  · simp only [copyAssign, Copyable.copyAssign, ne_eq, not_true_eq_false, if_false]
    exact Erases.pure ()
  simp only [copyAssign, Copyable.copyAssign, if_pos hne]
  apply (Erases.onWorld _).bind
  intro m
  have hfree : Erases (freeIf m : Call O H C Unit) (modify fun w => w.freeIf m) := by
    cases m with
    | none => exact fun _ => rfl
    | some h => exact (Erases.onWorld _).note
  apply hfree.bind
  intro _
  apply (Erases.onWorld _).bind
  intro src
  apply (Erases.onWorld _).note.bind
  intro r
  exact Erases.check r n.copyAssign

/-! ### What is asked -/

section Asked

variable (n : Names) (w : World O H C) {this rhs : O}

omit [DecidableEq O] [DecidableEq H] in
theorem run_field (j : Journal O H C) (o : O) :
    (field o).run j = .ok (Pointer.get j.world.obj o) j :=
  rfl

/-- nng is asked for a copy, and grants it. -/
theorem run_nngDup_ok (j : Journal O H C) (this : O) (src : Option H) (h : H) :
    (nngDup this src (.ok h)).run j = .ok .success
      ⟨{ j.world with
          heap := update j.world.heap h (src.bind j.world.heap)
          obj := update j.world.obj this (some (some h)) },
        j.asked ++ [.dup src (src.bind j.world.heap).isSome]⟩ :=
  rfl

theorem run_nngDup_error (j : Journal O H C) (this : O) (src : Option H) (e : Failure) :
    (nngDup this src (.error e)).run j = .ok e.val
      ⟨j.world, j.asked ++ [.dup src (src.bind j.world.heap).isSome]⟩ :=
  rfl

/-- The copy constructor asks for a copy of what the source has. -/
theorem run_copyCtor_ok (hne : rhs ≠ this) (h : H) :
    (copyCtor n this rhs (.ok h)).run ⟨w, []⟩ = .ok ()
      ⟨leaves (Copyable.copyCtor n this rhs (.ok h)) w,
        [.dup (Pointer.get w.obj rhs) ((Pointer.get w.obj rhs).bind w.heap).isSome]⟩ := by
  rw [leaves_copyCtor_ok n w hne]
  have hstart : (onWorld (modify fun w => { w with obj := Pointer.default w.obj this }) :
      Call O H C Unit).run ⟨w, []⟩ = .ok () ⟨{ w with obj := Pointer.default w.obj this }, []⟩ := rfl
  rw [copyCtor, construct, run_bind_of_ok hstart, run_withUndo,
    run_bind_of_ok (run_field _ rhs), run_bind_of_ok (run_nngDup_ok _ this _ h),
    run_check_success]
  simp [Pointer.default, hne]

/-- What freeing a pointer asks. -/
def askedFree (w : World O H C) : Option H → List (Asked H)
  | none => []
  | some h => [.free h (w.heap h).isSome]

omit [DecidableEq O] in
theorem run_freeIf (j : Journal O H C) (p : Option H) :
    (freeIf p).run j = .ok () ⟨j.world.freeIf p, j.asked ++ askedFree j.world p⟩ := by
  cases p with
  | none => simp [freeIf, askedFree, World.freeIf]
  | some h => rfl

/-- The copy assignment asks to free what the object has, and then for the copy. -/
theorem run_copyAssign_ok (hne : this ≠ rhs) (h : H) :
    (copyAssign n this rhs (.ok h)).run ⟨w, []⟩ = .ok ()
      ⟨leaves (Copyable.copyAssign n this rhs (.ok h)) w,
        askedFree w (Pointer.get w.obj this) ++
          [.dup (Pointer.get w.obj rhs)
            ((Pointer.get w.obj rhs).bind (w.freeIf (Pointer.get w.obj this)).heap).isSome]⟩ := by
  rw [leaves_copyAssign_ok n w hne]
  rw [copyAssign, if_pos hne, run_bind_of_ok (run_field _ this),
    run_bind_of_ok (run_freeIf _ _), run_bind_of_ok (run_field _ rhs),
    run_bind_of_ok (run_nngDup_ok _ this _ h), run_check_success]
  simp [World.freeIf_obj]

/-- When nng refuses, the copy throws. -/
theorem run_copyCtor_error (this rhs : O) (e : Failure) :
    ∃ j, (copyCtor n this rhs (.error e)).run ⟨w, []⟩ = .error ⟨e.val, n.copyCtor⟩ j := by
  have hstart : (onWorld (modify fun w => { w with obj := Pointer.default w.obj this }) :
      Call O H C Unit).run ⟨w, []⟩ = .ok () ⟨{ w with obj := Pointer.default w.obj this }, []⟩ := rfl
  rw [copyCtor, construct, run_bind_of_ok hstart, run_withUndo,
    run_bind_of_ok (run_field _ rhs), run_bind_of_ok (run_nngDup_error _ this _ e),
    run_check_failure]
  exact ⟨_, rfl⟩

theorem run_copyAssign_error (hne : this ≠ rhs) (e : Failure) :
    ∃ j, (copyAssign n this rhs (.error e)).run ⟨w, []⟩ = .error ⟨e.val, n.copyAssign⟩ j := by
  rw [copyAssign, if_pos hne, run_bind_of_ok (run_field _ this),
    run_bind_of_ok (run_freeIf _ _), run_bind_of_ok (run_field _ rhs),
    run_bind_of_ok (run_nngDup_error _ this _ e), run_check_failure]
  exact ⟨_, rfl⟩

theorem run_copyAssign_self (this : O) (ans : Answer H) :
    (copyAssign n this this ans).run ⟨w, []⟩ = .ok () ⟨w, []⟩ := by
  simp [copyAssign]

end Asked

end Journal

end Nngpp.Copyable
