import Nngpp.Core
import Nngpp.Pointer

/-!
Handles that nng takes from their objects.

`socket_view::send( msg&& )` and `server_view::add_handler( handler&& )` are one
text: the call of nng, the throw, and only then the `release()` which makes the
object forget what nng has taken. A `Shelf` has what the text works on, for one
class of objects: the handles that are the application's to free, and those that
nng has taken, with the socket or the server that did.

That the application frees a handle which is not its own, or hands one over, is
recorded as a fault.
-/

namespace Nngpp.HandOver

open Function Lib

/-- The objects of a class, the handles that are the application's, those that
nng has taken and who has, and the handles used when they were not the
application's. -/
structure Shelf (O T N : Type) where
  obj : Pointer.Table O T
  heap : T → Option Unit
  taken : T → Option N
  faults : List T

namespace Shelf

variable {O T N : Type} [DecidableEq O] [DecidableEq T] [DecidableEq N]

abbrev Call (O T N : Type) := EStateM Exception (Shelf O T N)

/-! ### nng -/

/-- `nng_msg_free`, `nng_http_handler_free`. -/
def free (s : Shelf O T N) (t : T) : Shelf O T N :=
  if s.heap t = none then { s with faults := s.faults ++ [t] }
  else { s with heap := update s.heap t none }

/-- `if( p != nullptr ) nng_msg_free(p);`. -/
def freeIf (s : Shelf O T N) : Option T → Shelf O T N
  | none => s
  | some t => s.free t

/-- nng takes a handle. -/
def take (s : Shelf O T N) (t : T) (n : N) : Shelf O T N :=
  if s.heap t = none then { s with faults := s.faults ++ [t] }
  else { s with heap := update s.heap t none, taken := update s.taken t (some n) }

/-- `nng_sendmsg`, `nng_http_server_add_handler`: takes the handle when it
returns zero. -/
def nngTake (p : Option T) (n : N) (r : Error) : Call O T N Error := do
  if r = .success then
    if let some t := p then
      modify fun s => s.take t n
  return r

/-- `nng_http_server_del_handler`: gives the handle back when it is one of those
the server has taken, and fails for any other. -/
def nngGiveBack (p : Option T) (n : N) (e : Failure) : Call O T N Error := do
  match p with
  | none => return e.val
  | some t =>
      if (← get).taken t = some n then
        modify fun s =>
          { s with taken := update s.taken t none, heap := update s.heap t (some ()) }
        return .success
      else return e.val

/-- nng is done with a handle it has taken. -/
def dispose (s : Shelf O T N) (t : T) : Shelf O T N := { s with taken := update s.taken t none }

/-- nng is done with all the handles of one taker. -/
def disposeAll (s : Shelf O T N) (n : N) : Shelf O T N :=
  { s with taken := fun t => if s.taken t = some n then none else s.taken t }

/-! ### nngpp -/

/-- A constructor that gets its handle from nng. -/
def acquire (source : String) (this : O) (ans : Answer T) : Call O T N Unit := do
  let t ← orThrow ans source
  modify fun s => { s with
    heap := update s.heap t (some ())
    obj := Pointer.adopt s.obj this (some t) }

/-- The destructor. -/
def destroy (s : Shelf O T N) (this : O) : Shelf O T N :=
  let r := Pointer.destroy s.obj this
  { s with obj := r.1 }.freeIf r.2

/-- A hand-over: the call of nng, the throw, and the `release()`. -/
def handOver (source : String) (this : O) (n : N) (r : Error) : Call O T N Unit := do
  let r ← nngTake (Pointer.get (← get).obj this) n r
  check r source
  modify fun s => { s with obj := (Pointer.release s.obj this).1 }

/-- The other way: the call of nng, the throw, and the object made of the handle. -/
def takeBack (source : String) (p : Option T) (n : N) (out : O) (e : Failure) :
    Call O T N Unit := do
  let r ← nngGiveBack p n e
  check r source
  modify fun s => { s with obj := Pointer.adopt s.obj out p }

def init : Shelf O T N where
  obj _ := none
  heap _ := none
  taken _ := none
  faults := []

end Shelf

/-! ### What is accounted for -/

variable {O T N : Type}

/-- Every handle that is the application's is in exactly one object, none of them
is also nng's, and none was used by someone else than its owner. -/
structure Accounted (s : Shelf O T N) : Prop where
  ledger : Ledger (Pointer.get s.obj) (fun _ => false) s.heap
  apart : ∀ t, s.taken t ≠ none → s.heap t = none
  noFault : s.faults = []

/-- Where a handle is that is the application's. -/
theorem Accounted.held {s : Shelf O T N} (hs : Accounted s) {t : T} (ht : s.heap t ≠ none) :
    ∃ o, Pointer.get s.obj o = some t :=
  (hs.ledger.covered ht).resolve_left Bool.false_ne_true

theorem accounted_init : Accounted (Shelf.init : Shelf O T N) where
  ledger := Ledger.empty fun _ => none
  apart _ _ := rfl
  noFault := rfl

variable {s : Shelf O T N}

/-- What is nng's stays apart when the application gets or loses other handles. -/
theorem Accounted.apart_update [DecidableEq T] (hs : Accounted s) {t : T} (x : Option Unit)
    {y : Option N} (hxy : y ≠ none → x = none) {u : T} (hu : update s.taken t y u ≠ none) :
    update s.heap t x u = none := by
  rcases eq_or_ne u t with rfl | hut
  · rw [update_self] at hu ⊢
    exact hxy hu
  · rw [update_of_ne hut] at hu ⊢
    exact hs.apart u hu

/-! ### Steps of nng -/

theorem Accounted.dispose [DecidableEq T] (hs : Accounted s) (t : T) : Accounted (s.dispose t) := by
  refine ⟨hs.ledger, fun u hu => hs.apart u fun hnone => ?_, hs.noFault⟩
  rcases eq_or_ne u t with rfl | hut
  · simp [Shelf.dispose] at hu
  · simp [Shelf.dispose, hut, hnone] at hu

theorem Accounted.disposeAll [DecidableEq N] (hs : Accounted s) (n : N) :
    Accounted (s.disposeAll n) := by
  refine ⟨hs.ledger, fun u hu => hs.apart u fun hnone => ?_, hs.noFault⟩
  simp [Shelf.disposeAll, hnone] at hu

variable [DecidableEq O] [DecidableEq T]

/-! ### Construction and destruction -/

theorem run_acquire_ok (source : String) (this : O) (t : T) :
    (Shelf.acquire source this (.ok t)).run s = .ok ()
      { s with
        heap := update s.heap t (some ())
        obj := Pointer.adopt s.obj this (some t) } := by
  simp [Shelf.acquire]

theorem run_acquire_error (source : String) (this : O) (e : Failure) :
    (Shelf.acquire source this (.error e : Answer T)).run s = .error ⟨e.val, source⟩ s := by
  simp [Shelf.acquire]

/-- A new object with a handle that has just become the application's. -/
theorem Accounted.adopt_fresh (hs : Accounted s) {this : O} (hthis : s.obj this = none) {t : T}
    (ht : s.heap t = none) :
    Accounted { s with
      heap := update s.heap t (some ())
      obj := Pointer.adopt s.obj this (some t)
      taken := update s.taken t none } := by
  refine ⟨?_, fun u hu => hs.apart_update _ (by simp) hu, hs.noFault⟩
  have hempty : Pointer.get s.obj this = none := by simp [Pointer.get, hthis]
  simpa [Pointer.adopt] using hs.ledger.take_fresh hempty ht ()

theorem Accounted.acquire (hs : Accounted s) (source : String) {this : O}
    (hthis : s.obj this = none) {ans : Answer T}
    (hfresh : ∀ t, ans = .ok t → s.heap t = none ∧ s.taken t = none) :
    Accounted (leaves (Shelf.acquire source this ans) s) := by
  match ans with
  | .error e => rwa [leaves_of_error (run_acquire_error source this e)]
  | .ok t =>
      obtain ⟨ht, hnng⟩ := hfresh t rfl
      have hsame : update s.taken t none = s.taken := by rw [← hnng, update_eq_self]
      rw [leaves_of_ok (run_acquire_ok source this t)]
      simpa [hsame] using hs.adopt_fresh hthis ht

theorem Shelf.destroy_of_none {this : O} (hp : Pointer.get s.obj this = none) :
    s.destroy this = { s with obj := update s.obj this none } := by
  simp [Shelf.destroy, Pointer.destroy, hp, Shelf.freeIf]

theorem Shelf.destroy_of_live {this : O} {t : T} (hp : Pointer.get s.obj this = some t)
    (hlive : s.heap t ≠ none) :
    s.destroy this = { s with obj := update s.obj this none, heap := update s.heap t none } := by
  simp [Shelf.destroy, Pointer.destroy, hp, Shelf.freeIf, Shelf.free, hlive]

omit [DecidableEq T] in
/-- An object that holds nothing may be anything else that holds nothing. -/
theorem Accounted.drop (hs : Accounted s) {this : O} (hp : Pointer.get s.obj this = none)
    {x : Option (Option T)} (hx : x.join = none) :
    Accounted { s with obj := update s.obj this x } := by
  refine ⟨?_, hs.apart, hs.noFault⟩
  have hsame : update (Pointer.get s.obj) this none = Pointer.get s.obj := by
    rw [← hp, update_eq_self]
  simpa [hx, hsame] using hs.ledger

theorem Accounted.destroy (hs : Accounted s) (this : O) : Accounted (s.destroy this) := by
  cases hp : Pointer.get s.obj this with
  | none =>
      rw [Shelf.destroy_of_none hp]
      exact hs.drop hp rfl
  | some t =>
      rw [Shelf.destroy_of_live hp (hs.ledger.live hp)]
      refine ⟨by simpa using hs.ledger.give_back hp, fun u hu => ?_, hs.noFault⟩
      have hu : update s.taken t (s.taken t) u ≠ none := by rwa [update_eq_self]
      exact hs.apart_update none (fun _ => rfl) hu

/-! ### Hand-overs -/

/-- A hand-over that nng refuses throws, with everything as it was. -/
theorem run_handOver_failure (source : String) (this : O) (n : N) {r : Error}
    (hr : r ≠ .success) : (Shelf.handOver source this n r).run s = .error ⟨r, source⟩ s := by
  simp [Shelf.handOver, Shelf.nngTake, hr, run_check_of_ne hr]

/-- A hand-over that nng accepts returns, with the object null and its handle
nng's. -/
theorem run_handOver_success (hs : Accounted s) (source : String) (this : O) (n : N) :
    ∃ s', (Shelf.handOver source this n .success).run s = .ok () s' ∧ Accounted s' ∧
      s'.obj this = some none ∧
      ∀ t, Pointer.get s.obj this = some t → s'.heap t = none ∧ s'.taken t = some n := by
  cases hp : Pointer.get s.obj this with
  | none =>
      refine ⟨{ s with obj := update s.obj this (some none) }, ?_, hs.drop hp rfl, by simp, nofun⟩
      simp [Shelf.handOver, Shelf.nngTake, hp, Pointer.release]
  | some t =>
      have hlive := hs.ledger.live hp
      refine ⟨{ s with
        obj := update s.obj this (some none)
        heap := update s.heap t none
        taken := update s.taken t (some n) }, ?_, ⟨?_, ?_, hs.noFault⟩, by simp, ?_⟩
      · simp [Shelf.handOver, Shelf.nngTake, hp, Shelf.take, hlive, Pointer.release]
      · simpa using hs.ledger.give_back hp
      · exact fun u hu => hs.apart_update none (fun _ => rfl) hu
      · rintro u ⟨⟩
        simp

variable [DecidableEq N]

/-- Taking back throws, with everything as it was, for a handle that this taker
has not taken. -/
theorem run_takeBack_of_ne (source : String) {p : Option T} {n : N} (out : O) (e : Failure)
    (hp : ∀ t, p = some t → s.taken t ≠ some n) :
    (Shelf.takeBack source p n out e).run s = .error ⟨e.val, source⟩ s := by
  cases p with
  | none => simp [Shelf.takeBack, Shelf.nngGiveBack]
  | some t => simp [Shelf.takeBack, Shelf.nngGiveBack, hp t rfl]

/-- For one that it has taken, it returns the handle in a new object. -/
theorem run_takeBack_of_taken (source : String) {t : T} {n : N} (out : O) (e : Failure)
    (ht : s.taken t = some n) :
    (Shelf.takeBack source (some t) n out e).run s = .ok ()
      { s with
        heap := update s.heap t (some ())
        obj := Pointer.adopt s.obj out (some t)
        taken := update s.taken t none } := by
  simp [Shelf.takeBack, Shelf.nngGiveBack, ht]

/-- A handle that is handed over and taken back is where it was, but for the
object that holds it. -/
theorem run_handOver_takeBack (hs : Accounted s) (source source' : String) {this out : O} {t : T}
    (ht : Pointer.get s.obj this = some t) (n : N) (e : Failure) :
    (do Shelf.handOver source this n .success; Shelf.takeBack source' (some t) n out e).run s =
      .ok () { s with obj := update (update s.obj this (some none)) out (some (some t)) } := by
  have hlive := hs.ledger.live ht
  have hnng : s.taken t = none := by
    by_contra hnng
    exact hlive (hs.apart t hnng)
  have hheap : update s.heap t (some ()) = s.heap := by
    obtain ⟨u, hu⟩ := Option.ne_none_iff_exists'.mp hlive
    rw [← hu, update_eq_self]
  have htaken : update s.taken t none = s.taken := by rw [← hnng, update_eq_self]
  simp [Shelf.handOver, Shelf.nngTake, ht, Shelf.take, hlive, Pointer.release, Shelf.takeBack,
    Shelf.nngGiveBack, Pointer.adopt, hheap, htaken]

theorem Accounted.takeBack (hs : Accounted s) (source : String) (p : Option T) (n : N) {out : O}
    (hout : s.obj out = none) (e : Failure) :
    Accounted (leaves (Shelf.takeBack source p n out e) s) := by
  by_cases hp : ∃ t, p = some t ∧ s.taken t = some n
  · obtain ⟨t, rfl, ht⟩ := hp
    rw [leaves_of_ok (run_takeBack_of_taken source out e ht)]
    exact hs.adopt_fresh hout (hs.apart t (by simp [ht]))
  · push Not at hp
    rwa [leaves_of_error (run_takeBack_of_ne source out e hp)]

end Nngpp.HandOver
