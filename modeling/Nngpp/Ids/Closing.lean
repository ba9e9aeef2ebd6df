import Nngpp.Ids.Wrapper
import Nngpp.Lib.Run

/-!
Overwriting a wrapper whose object was closed behind its back.

Objects of nng are closed by their wrappers, by other code, by the peer, and along
with their socket; a wrapper does not notice. When it is assigned to, it closes an
object that may be closed already, and nng answers `closed`.

`Completes` is what is claimed of a move assignment. It fails in one case, that of
a pipe which is not open any more (`completes_iff`), and so a run does what is
claimed exactly as long as no pipe wrapper is overwritten in that state.
-/

namespace Nngpp.Ids

open Function Lib

/-! ### nng -/

/-- Which objects are open, to which socket they belong, and which ids have been
used. -/
structure Nng where
  isOpen : Kind × ℕ → Bool
  parent : Kind × ℕ → ℕ
  used : Kind × ℕ → Bool

/-- An object closes, and if it is a socket, so do its contexts, dialers,
listeners and pipes. -/
def Nng.shut (n : Nng) (x : Kind × ℕ) : Nng :=
  { n with isOpen := fun y =>
      if y = x ∨ x.1 = .socket ∧ y.1 ≠ .socket ∧ n.parent y = x.2 then false else n.isOpen y }

/-- An object opens, with an id not used before. -/
def Nng.appear (n : Nng) (x : Kind × ℕ) (parent : ℕ) : Nng where
  isOpen := update n.isOpen x true
  parent := update n.parent x parent
  used := update n.used x true

/-- The close functions: zero for an object that is open, `closed` for another. -/
def close : Close Nng := fun x n =>
  if n.isOpen x then (.success, n.shut x) else (.closed, n)

theorem shut_self (n : Nng) (x : Kind × ℕ) : (n.shut x).isOpen x = false := by
  simp [Nng.shut]

/-- After a close function has returned, the object is closed. -/
theorem close_isOpen (x : Kind × ℕ) (n : Nng) : (close x n).2.isOpen x = false := by
  unfold close
  cases h : n.isOpen x with
  | true => exact shut_self n x
  | false => simpa using h

theorem close_result (x : Kind × ℕ) (n : Nng) :
    (close x n).1 = if n.isOpen x then .success else .closed := by
  unfold close
  split <;> rfl

variable {O : Type}

section Model

variable [DecidableEq O]

/-! ### Runs -/

/-- What can happen: a program opens an object into a wrapper, or wraps an id it
has from elsewhere; nng opens an object that nobody wraps; an object is closed by
a direct call or by the peer; and wrappers are moved, assigned, released and
destroyed. -/
inductive Event (O : Type)
  | opened (k : Kind) (this : O) (id : ℕ) (parent : ℕ)
  | adopt (k : Kind) (this : O) (id : ℕ)
  | appear (k : Kind) (id : ℕ) (parent : ℕ)
  | shut (k : Kind) (id : ℕ)
  | moveCtor (k : Kind) (this rhs : O)
  | moveAssign (k : Kind) (this rhs : O)
  | release (k : Kind) (this : O)
  | destroy (k : Kind) (this : O)

def Event.call : Event O → Call O Nng Unit
  | .opened k this id parent => do
      modify fun w => { w with nng := w.nng.appear (k, id) parent }
      setId k this id
  | .adopt k this id => Ids.adopt k this id
  | .appear k id parent => modify fun w => { w with nng := w.nng.appear (k, id) parent }
  | .shut k id => modify fun w => { w with nng := w.nng.shut (k, id) }
  | .moveCtor k this rhs => Ids.moveCtor k this rhs
  | .moveAssign k this rhs => Ids.moveAssign close k this rhs
  | .release k this => do let _ ← Ids.release k this
  | .destroy k this => Ids.destroy close k this

/-- An id that nng may give to a new object. -/
def Nng.Fresh (n : Nng) (k : Kind) (id parent : ℕ) : Prop :=
  id ≠ 0 ∧ n.used (k, id) = false ∧ (k ≠ .socket → n.isOpen (.socket, parent) = true)

def Possible (w : World O Nng) : Event O → Prop
  | .opened k this id parent => w.obj (k, this) = none ∧ w.nng.Fresh k id parent
  | .adopt k this _ => w.obj (k, this) = none
  | .appear k id parent => w.nng.Fresh k id parent
  | .shut k id => w.nng.isOpen (k, id) = true
  | .moveCtor k this rhs => w.obj (k, this) = none ∧ w.obj (k, rhs) ≠ none
  | .moveAssign k this rhs => w.obj (k, this) ≠ none ∧ w.obj (k, rhs) ≠ none
  | .release k this => w.obj (k, this) ≠ none
  | .destroy k this => w.obj (k, this) ≠ none

def happen (w : World O Nng) (ev : Event O) : World O Nng := leaves ev.call w

def Happens (w : World O Nng) (ev : Event O) (w' : World O Nng) : Prop :=
  Possible w ev ∧ w' = happen w ev

def start : World O Nng where
  obj _ := none
  nng := ⟨fun _ => false, fun _ => 0, fun _ => false⟩

/-! ### One move assignment -/

/-- The assignment returns; the wrapper has the id of the other, which is null,
and its former object is closed. A self-assignment changes nothing. -/
def Completes (w : World O Nng) (k : Kind) (this rhs : O) : Prop :=
  ∃ w', (moveAssign close k this rhs).run w = .ok () w' ∧
    if this = rhs then w' = w
    else w'.id k this = w.id k rhs ∧ w'.id k rhs = 0 ∧
      (w.id k this ≠ 0 → w'.nng.isOpen (k, w.id k this) = false)

/-- A pipe wrapper is overwritten whose pipe is closed. -/
def StalePipe (w : World O Nng) (k : Kind) (this rhs : O) : Prop :=
  k = .pipe ∧ this ≠ rhs ∧ w.id k this ≠ 0 ∧ w.nng.isOpen (k, w.id k this) = false

end Model

theorem refuses_closed_iff (k : Kind) : refuses k .closed = true ↔ k = .pipe := by
  cases k <;> decide

theorem refuses_success (k : Kind) : refuses k .success = false := by
  cases k <;> rfl

/-- What the close functions answer is refused for a closed pipe only. -/
theorem refuses_close_iff (x : Kind × ℕ) (n : Nng) :
    refuses x.1 (close x n).1 = true ↔ x.1 = .pipe ∧ n.isOpen x = false := by
  rw [close_result]
  cases n.isOpen x with
  | true => simp [refuses_success]
  | false => simp [refuses_closed_iff]

variable [DecidableEq O]

theorem completes_iff (w : World O Nng) (k : Kind) (this rhs : O) :
    Completes w k this rhs ↔ ¬ StalePipe w k this rhs := by
  rcases eq_or_ne this rhs with rfl | hne
  · refine iff_of_true ⟨w, run_moveAssign_self close k this w, by simp⟩ ?_
    exact fun h => h.2.1 rfl
  by_cases hid : w.id k this = 0
  · refine iff_of_true ⟨_, run_moveAssign_null close hne w hid, ?_⟩ fun h => h.2.2.1 hid
    rw [if_neg hne]
    exact ⟨by simp [World.id, hne], by simp [World.id], fun h => absurd hid h⟩
  cases hr : refuses k (close (k, w.id k this) w.nng).1 with
  | true =>
      have hrun := run_moveAssign_of_refuses close hne w hid hr
      obtain ⟨hk, hopen⟩ := (refuses_close_iff (k, w.id k this) w.nng).mp hr
      refine iff_of_false ?_ fun h => h ⟨hk, hne, hid, hopen⟩
      rintro ⟨w', hok, -⟩
      rw [hrun] at hok
      cases hok
  | false =>
      refine iff_of_true ⟨_, run_moveAssign_of_accepts close hne w hid hr, ?_⟩ ?_
      · simp [World.id, hne, close_isOpen]
      · rintro ⟨hk, -, -, hopen⟩
        have hrefused := (refuses_close_iff (k, w.id k this) w.nng).mpr ⟨hk, hopen⟩
        rw [hr] at hrefused
        cases hrefused

/-- Which answers make the move assignment of a wrapper with an id throw. -/
theorem moveAssign_throws_iff {N : Type} (close : Close N) (w : World O N) (k : Kind) {this rhs : O}
    (hne : this ≠ rhs) (hid : w.id k this ≠ 0) :
    (∃ x w', (moveAssign close k this rhs).run w = .error x w') ↔
      (close (k, w.id k this) w.nng).1 ≠ .success ∧
        (k ≠ .pipe → (close (k, w.id k this) w.nng).1 ≠ .closed) := by
  have hrefuses (r : Error) :
      refuses k r = true ↔ r ≠ .success ∧ (k ≠ .pipe → r ≠ .closed) := by
    cases k <;> simp [refuses]
  rw [← hrefuses]
  cases hr : refuses k (close (k, w.id k this) w.nng).1 with
  | true => exact iff_of_true ⟨_, _, run_moveAssign_of_refuses close hne w hid hr⟩ rfl
  | false =>
      refine iff_of_false ?_ Bool.false_ne_true
      rintro ⟨x, w', herror⟩
      rw [run_moveAssign_of_accepts close hne w hid hr] at herror
      cases herror

/-! ### Whole runs -/

/-- The move assignments of a run all complete exactly when none of them
overwrites the wrapper of a closed pipe; and the five operators are one function
of the old id, the new id and the answer of the close function, but for the answer
`closed` to a pipe. -/
theorem assignments_complete_iff {tr : List (Transition (World O Nng) (Event O))}
    {w : World O Nng} (run : Run Happens start tr w) :
    ((∀ e ∈ tr, ∀ k this rhs, e.label = .moveAssign k this rhs → Completes e.pre k this rhs) ↔
      ∀ e ∈ tr, ∀ k this rhs, e.label = .moveAssign k this rhs → ¬ StalePipe e.pre k this rhs) ∧
    (∀ e ∈ tr, ∀ k this rhs, e.label = .moveAssign k this rhs →
      e.post = leaves (moveAssign close k this rhs) e.pre) ∧
    ∀ (close : Close Nng) (w : World O Nng) k this rhs, this ≠ rhs → w.id k this ≠ 0 →
      ((∃ x w', (moveAssign close k this rhs).run w = .error x w') ↔
        (close (k, w.id k this) w.nng).1 ≠ .success ∧
          (k ≠ .pipe → (close (k, w.id k this) w.nng).1 ≠ .closed)) := by
  refine ⟨?_, fun e he k this rhs hlabel => ?_, fun close w k this rhs hne hid =>
    moveAssign_throws_iff close w k hne hid⟩
  · constructor
    · exact fun h e he k this rhs hlabel => (completes_iff _ _ _ _).mp (h e he k this rhs hlabel)
    · exact fun h e he k this rhs hlabel => (completes_iff _ _ _ _).mpr (h e he k this rhs hlabel)
  · obtain ⟨-, -, hpost⟩ := run.of_mem (I := fun _ => True) trivial (fun _ _ _ _ _ => trivial) he
    rw [hpost, happen, hlabel]
    rfl

/-- A dialer of a socket that has been closed is overwritten by another. -/
theorem assignments_complete_dialer :
    let evs : List (Event ℕ) := [.opened .socket 0 1 0, .opened .dialer 0 5 1,
      .opened .dialer 1 6 1, .shut .socket 1, .moveAssign .dialer 0 1]
    ∀ e ∈ Run.trace happen start evs, ∀ k this rhs, e.label = .moveAssign k this rhs →
      Completes e.pre k this rhs := by
  intro evs
  have possible : Run.AllEnabled Possible happen start evs :=
    ⟨⟨rfl, by decide, rfl, by decide⟩, ⟨rfl, by decide, rfl, fun _ => rfl⟩,
      ⟨rfl, by decide, rfl, fun _ => rfl⟩, rfl, ⟨nofun, nofun⟩, trivial⟩
  refine (assignments_complete_iff (Run.of_exec possible)).1.mpr ?_
  simp [evs, Run.trace, StalePipe]

/-- Two pipes, the first closed by the peer, and then overwritten by the second. -/
def stalePipe : List (Event ℕ) :=
  [.opened .socket 0 1 0, .opened .pipe 0 5 1, .opened .pipe 1 6 1, .shut .pipe 5]

/-- The assignment throws, and leaves the wrapper with the pipe that is closed. -/
theorem stalePipe_throws :
    (∃ w', (moveAssign close .pipe 0 1).run (stalePipe.foldl happen start) =
      .error ⟨.closed, "nng_pipe_close"⟩ w' ∧ w'.id .pipe 0 = 5) ∧
    ¬ ∀ (tr : List (Transition (World ℕ Nng) (Event ℕ))) (w : World ℕ Nng),
      Run Happens start tr w → ∀ e ∈ tr, ∀ k this rhs, e.label = .moveAssign k this rhs →
        Completes e.pre k this rhs := by
  refine ⟨⟨_, rfl, rfl⟩, fun hall => ?_⟩
  have possible : Run.AllEnabled Possible happen start (stalePipe ++ [.moveAssign .pipe 0 1]) :=
    ⟨⟨rfl, by decide, rfl, by decide⟩, ⟨rfl, by decide, rfl, fun _ => rfl⟩,
      ⟨rfl, by decide, rfl, fun _ => rfl⟩, rfl, ⟨nofun, nofun⟩, trivial⟩
  have hlast := hall _ _ (Run.of_exec possible) ⟨stalePipe.foldl happen start, _, _⟩
    (.tail _ (.tail _ (.tail _ (.tail _ (.head _))))) .pipe 0 1 rfl
  exact (completes_iff _ _ _ _).mp hlast ⟨rfl, by decide, by decide, rfl⟩

end Nngpp.Ids
