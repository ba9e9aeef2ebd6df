import Nngpp.Core
import Nngpp.Lib.Run
import Nngpp.Pointer

/-!
The classes that own a handle, in one program.

A class is told from the others by the functions that give it a handle and by the one
that frees it; `http::server` and `tls::config` are not here, since their handles are
counted. The objects of all classes live side by side, and their handles share
the addresses of one process. `nng` says which calls are right, so that a handle that
is freed twice, or by the function of another class, is a call that nng does not
accept.
-/

namespace Nngpp.Pointer

open Function Lib

/-- The classes. -/
inductive Kind
  | aio | cv | mtx | thread | stat
  | httpClient | httpConn | httpHandler | httpReq | httpRes
  | streamDialer | streamListener | stream
  deriving DecidableEq

/-- The functions by which the constructors and the `make_` function of a class get a
handle. -/
def Kind.acquires : Kind → List String
  | .aio => ["nng_aio_alloc"]
  | .cv => ["nng_cv_alloc"]
  | .mtx => ["nng_mtx_alloc"]
  | .thread => ["nng_thread_create"]
  | .stat => ["nng_stats_get"]
  | .httpClient => ["nng_http_client_alloc"]
  | .httpConn => []
  | .httpHandler => ["nng_http_handler_alloc", "nng_http_handler_alloc_file",
      "nng_http_handler_alloc_directory", "nng_http_handler_alloc_static"]
  | .httpReq => ["nng_http_req_alloc"]
  | .httpRes => ["nng_http_res_alloc", "nng_http_res_alloc_error"]
  | .streamDialer => ["nng_stream_dialer_alloc", "nng_stream_dialer_alloc_url"]
  | .streamListener => ["nng_stream_listener_alloc", "nng_stream_listener_alloc_url"]
  | .stream => []

/-- The function that its destructor and its move assignment call. -/
def Kind.free : Kind → String
  | .aio => "nng_aio_free"
  | .cv => "nng_cv_free"
  | .mtx => "nng_mtx_free"
  | .thread => "nng_thread_destroy"
  | .stat => "nng_stats_free"
  | .httpClient => "nng_http_client_free"
  | .httpConn => "nng_http_conn_close"
  | .httpHandler => "nng_http_handler_free"
  | .httpReq => "nng_http_req_free"
  | .httpRes => "nng_http_res_free"
  | .streamDialer => "nng_stream_dialer_free"
  | .streamListener => "nng_stream_listener_free"
  | .stream => "nng_stream_free"

/-- A call of nng that gives a handle, or frees one. -/
inductive Asked (H : Type)
  | acquired (k : Kind) (p : H)
  | freed (fn : String) (p : H)

/-- nng: a new handle has an address of its own, and a function frees the live handles
of its class. -/
def nng {H : Type} [DecidableEq H] (live : H → Option Kind) : Asked H → Option (H → Option Kind)
  | .acquired k p => if live p = none then some (update live p (some k)) else none
  | .freed fn p =>
      match live p with
      | some k => if k.free = fn then some (update live p none) else none
      | none => none

/-- The objects, the handles that are the user's to free, what the handles are, and the
calls of nng. An object is named by its class and a name. -/
structure State (O H : Type) where
  obj : Table (Kind × O) H
  user : H → Bool
  live : H → Option Kind
  asked : List (Asked H)

variable {O H : Type} [DecidableEq O] [DecidableEq H]

namespace State

def init : State O H := ⟨fun _ => none, fun _ => false, fun _ => none, []⟩

/-- nng gives a handle. -/
def gain (s : State O H) (k : Kind) (p : H) : State O H :=
  { s with
    live := update s.live p (some k)
    asked := s.asked ++ [.acquired k p] }

/-- `if( p != nullptr ) nng_T_free(p);`. -/
def freeIf (s : State O H) (k : Kind) : Option H → State O H
  | none => s
  | some p =>
      { s with
        live := update s.live p none
        asked := s.asked ++ [.freed k.free p] }

/-- A handle comes into the hands of the user, or leaves them. -/
def setUser (s : State O H) (b : Bool) : Option H → State O H
  | none => s
  | some p => { s with user := update s.user p b }

end State

/-- A constructor or a `make_` function that gets its handle from nng. -/
def acquire (k : Kind) (fn : String) (this : O) (ans : Answer H) :
    EStateM Exception (State O H) Unit := do
  let p ← orThrow ans fn
  modify fun s => { s.gain k p with obj := adopt s.obj (k, this) (some p) }

/-- What the user can do: the members, and the functions of nng for handles that no
object has. -/
inductive Op (O H : Type)
  | default (k : Kind) (this : O)
  | acquire (k : Kind) (fn : String) (this : O) (ans : Answer H)
  | adopt (k : Kind) (this : O) (p : Option H)
  | moveCtor (k : Kind) (this rhs : O)
  | moveAssign (k : Kind) (this rhs : O)
  | destroy (k : Kind) (this : O)
  | release (k : Kind) (this : O)
  | obtain (k : Kind) (p : H)
  | dispose (k : Kind) (p : H)

/-- Constructors make new objects, and all other members are called on objects that
exist. What the user puts into an object or frees is the user's, and is what the user
says. -/
def Enabled (s : State O H) : Op O H → Prop
  | .default k this => s.obj (k, this) = none
  | .acquire k fn this ans =>
      s.obj (k, this) = none ∧ fn ∈ k.acquires ∧ ∀ p, ans = .ok p → s.live p = none
  | .adopt k this p =>
      s.obj (k, this) = none ∧ ∀ x, p = some x → s.user x = true ∧ s.live x = some k
  | .moveCtor k this rhs => s.obj (k, this) = none ∧ s.obj (k, rhs) ≠ none
  | .moveAssign k this rhs => s.obj (k, this) ≠ none ∧ s.obj (k, rhs) ≠ none
  | .destroy k this => s.obj (k, this) ≠ none
  | .release k this => s.obj (k, this) ≠ none
  | .obtain _ p => s.live p = none
  | .dispose k p => s.user p = true ∧ s.live p = some k

def exec (s : State O H) : Op O H → State O H
  | .default k this => { s with obj := default s.obj (k, this) }
  | .acquire k fn this ans => leaves (acquire k fn this ans) s
  | .adopt k this p => { s.setUser false p with obj := adopt s.obj (k, this) p }
  | .moveCtor k this rhs => { s with obj := moveCtor s.obj (k, this) (k, rhs) }
  | .moveAssign k this rhs =>
      let r := moveAssign s.obj (k, this) (k, rhs)
      { s with obj := r.1 }.freeIf k r.2
  | .destroy k this =>
      let r := destroy s.obj (k, this)
      { s with obj := r.1 }.freeIf k r.2
  | .release k this =>
      let r := release s.obj (k, this)
      { s with obj := r.1 }.setUser true r.2
  | .obtain k p => (s.gain k p).setUser true (some p)
  | .dispose k p => (s.freeIf k (some p)).setUser false (some p)

def Step (s : State O H) (op : Op O H) (s' : State O H) : Prop := Enabled s op ∧ s' = exec s op

/-! ### What is always true -/

/-- Every live handle is held by one object or is the user's, an object holds handles of
its class, and nng accepts the calls. -/
structure Books (s : State O H) : Prop where
  ledger : Ledger (get s.obj) s.user s.live
  typed : ∀ k o p, get s.obj (k, o) = some p → s.live p = some k
  accepted : s.asked.foldlM nng (fun _ => none) = some s.live

section Ledger

variable {P : Type} [DecidableEq P] {t : Table P H} {own : H → Bool} {C : Type}
  {heap : H → Option C} {this rhs : P}

/-- The move assignment gives back what the object held. -/
theorem ledger_moveAssign (h : Ledger (get t) own heap) (this rhs : P) :
    Ledger (get (moveAssign t this rhs).1) own (without heap (moveAssign t this rhs).2) := by
  by_cases hne : this = rhs
  · rw [hne, moveAssign_self]
    exact h
  · have hmoved := (h.retire this).move hne (update_self ..)
    rw [update_idem, update_of_ne (Ne.symm hne)] at hmoved
    rw [moveAssign_of_ne t hne]
    simpa using hmoved

theorem ledger_destroy (h : Ledger (get t) own heap) (this : P) :
    Ledger (get (destroy t this).1) own (without heap (destroy t this).2) := by
  simpa [destroy] using h.retire this

end Ledger

/-- No class has a handle that it did not have. -/
def Within (t t' : Table (Kind × O) H) : Prop :=
  ∀ k o p, get t' (k, o) = some p → ∃ o', get t (k, o') = some p

section Tables

variable {t : Table (Kind × O) H} {k : Kind} {this rhs : O}

omit [DecidableEq H] in
/-- A member of a class puts into an object what an object of the class had. -/
theorem within_update {x : Option (Option H)} {t' : Table (Kind × O) H} (h : Within t t')
    (hx : ∀ p, x.join = some p → ∃ o', get t (k, o') = some p) :
    Within t (update t' (k, this) x) := by
  intro j o p hp
  rw [get_update] at hp
  by_cases hj : (j, o) = (k, this)
  · obtain ⟨rfl, rfl⟩ := Prod.mk.inj hj
    rw [update_self] at hp
    exact hx p hp
  · rw [update_of_ne hj] at hp
    exact h j o p hp

omit [DecidableEq O] [DecidableEq H] in
theorem Within.refl : Within t t := fun _ o _ hp => ⟨o, hp⟩

omit [DecidableEq H] in
theorem within_moveCtor : Within t (moveCtor t (k, this) (k, rhs)) := by
  apply within_update
  · apply within_update Within.refl
    exact fun p hp => ⟨rhs, hp⟩
  · intro p hp
    cases hp

omit [DecidableEq H] in
theorem within_moveAssign : Within t (moveAssign t (k, this) (k, rhs)).1 := by
  by_cases hne : (k, this) = (k, rhs)
  · rw [hne, moveAssign_self]
    exact Within.refl
  · rw [moveAssign_of_ne t hne]
    exact within_moveCtor

omit [DecidableEq H] in
/-- An object that has nothing afterwards. -/
theorem within_clear {x : Option (Option H)} (hx : x.join = none) :
    Within t (update t (k, this) x) := by
  apply within_update Within.refl
  intro p hp
  rw [hx] at hp
  cases hp

end Tables

/-! ### Steps -/

namespace Books

variable {s : State O H} {k : Kind} {this rhs : O}

omit [DecidableEq O] in
theorem init : Books (State.init : State O H) where
  ledger := Ledger.empty fun _ => none
  typed _ _ _ h := by cases h
  accepted := rfl

omit [DecidableEq O] in
/-- A member frees what an object has had. -/
theorem freeIf (h : Books s) {t : Table (Kind × O) H} {q : Option H}
    (hledger : Ledger (get t) s.user (without s.live q)) (hwithin : Within s.obj t)
    (hq : ∀ p, q = some p → s.live p = some k) : Books ({ s with obj := t }.freeIf k q) := by
  cases q with
  | none =>
      refine ⟨hledger, fun j o p hp => ?_, h.accepted⟩
      obtain ⟨o', ho'⟩ := hwithin j o p hp
      exact h.typed j o' p ho'
  | some x =>
      refine ⟨hledger, fun j o p hp => ?_, ?_⟩
      · obtain ⟨o', ho'⟩ := hwithin j o p hp
        have hlive : update s.live x none p ≠ none := hledger.live hp
        have hne : p ≠ x := by
          rintro rfl
          exact hlive (update_self ..)
        show update s.live x none p = some j
        rw [update_of_ne hne]
        exact h.typed j o' p ho'
      · simp [State.freeIf, List.foldlM_append, h.accepted, nng, hq x rfl]

theorem default (h : Books s) (hthis : s.obj (k, this) = none) :
    Books { s with obj := default s.obj (k, this) } := by
  have hnone : get s.obj (k, this) = none := by rw [get, hthis]; rfl
  have hsame : update (get s.obj) (k, this) none = get s.obj := by
    rw [← hnone, update_eq_self]
  refine h.freeIf (q := none) (k := k) ?_ (within_clear rfl) fun _ hp => by cases hp
  simpa [Pointer.default, hsame, without] using h.ledger

theorem destroy (h : Books s) (this : O) :
    Books ({ s with obj := (destroy s.obj (k, this)).1 }.freeIf k (destroy s.obj (k, this)).2) :=
  h.freeIf (ledger_destroy h.ledger (k, this)) (within_clear rfl) fun p hp => h.typed k this p hp

theorem moveCtor (h : Books s) (hthis : s.obj (k, this) = none) (hrhs : s.obj (k, rhs) ≠ none) :
    Books { s with obj := moveCtor s.obj (k, this) (k, rhs) } := by
  have hne : (k, this) ≠ (k, rhs) := by
    intro heq
    rw [heq] at hthis
    exact hrhs hthis
  have hnone : get s.obj (k, this) = none := by rw [get, hthis]; rfl
  refine h.freeIf (q := none) (k := k) ?_ within_moveCtor fun _ hp => by cases hp
  simpa [Pointer.moveCtor, without] using h.ledger.move hne hnone

theorem moveAssign (h : Books s) (this rhs : O) :
    Books ({ s with obj := (moveAssign s.obj (k, this) (k, rhs)).1 }.freeIf k
      (moveAssign s.obj (k, this) (k, rhs)).2) := by
  refine h.freeIf (ledger_moveAssign h.ledger _ _) within_moveAssign fun p hp => ?_
  by_cases hne : (k, this) = (k, rhs)
  · rw [hne, moveAssign_self] at hp
    cases hp
  · rw [moveAssign_of_ne _ hne] at hp
    exact h.typed k this p hp

/-- A new object has a handle that is no one else's. -/
theorem adopt (h : Books s) (hthis : s.obj (k, this) = none) {p : Option H}
    (hp : ∀ x, p = some x → s.user x = true ∧ s.live x = some k) :
    Books { s.setUser false p with obj := adopt s.obj (k, this) p } := by
  cases p with
  | none => exact h.default hthis
  | some x =>
      obtain ⟨huser, hlive⟩ := hp x rfl
      have hnone : get s.obj (k, this) = none := by rw [get, hthis]; rfl
      refine ⟨?_, fun j o y hy => ?_, h.accepted⟩
      · simpa [State.setUser, Pointer.adopt] using h.ledger.adopt hnone huser
      · have hy : update (get s.obj) (k, this) (some x) (j, o) = some y := by
          simpa [Pointer.adopt] using hy
        by_cases hj : (j, o) = (k, this)
        · obtain ⟨rfl, rfl⟩ := Prod.mk.inj hj
          rw [update_self] at hy
          obtain rfl := Option.some.inj hy
          exact hlive
        · rw [update_of_ne hj] at hy
          exact h.typed j o y hy

theorem release (h : Books s) (this : O) :
    Books ({ s with obj := (release s.obj (k, this)).1 }.setUser true
      (release s.obj (k, this)).2) := by
  have hwithin : Within s.obj (Pointer.release s.obj (k, this)).1 := within_clear rfl
  have htyped : ∀ j o p, get (Pointer.release s.obj (k, this)).1 (j, o) = some p →
      s.live p = some j := by
    intro j o p hp
    obtain ⟨o', ho'⟩ := hwithin j o p hp
    exact h.typed j o' p ho'
  cases hp : get s.obj (k, this) with
  | none =>
      have hsame : update (get s.obj) (k, this) none = get s.obj := by
        rw [← hp, update_eq_self]
      refine ⟨?_, ?_, ?_⟩
      · simpa [State.setUser, Pointer.release, hp, hsame] using h.ledger
      · simpa [State.setUser, Pointer.release, hp] using htyped
      · simpa [State.setUser, Pointer.release, hp] using h.accepted
  | some x =>
      refine ⟨?_, ?_, ?_⟩
      · simpa [State.setUser, Pointer.release, hp] using h.ledger.surrender hp
      · simpa [State.setUser, Pointer.release, hp] using htyped
      · simpa [State.setUser, Pointer.release, hp] using h.accepted

omit [DecidableEq O] in
/-- nng gives a handle to the user. -/
theorem obtain (h : Books s) {p : H} (hp : s.live p = none) :
    Books ((s.gain k p).setUser true (some p)) := by
  refine ⟨h.ledger.handOut hp k, fun j o x hx => ?_, ?_⟩
  · have hlive : s.live x = some j := h.typed j o x hx
    have hne : x ≠ p := by
      rintro rfl
      rw [hp] at hlive
      cases hlive
    show update s.live p (some k) x = some j
    rw [update_of_ne hne, hlive]
  · simp [State.gain, State.setUser, List.foldlM_append, h.accepted, nng, hp]

omit [DecidableEq O] in
/-- The user frees a handle of his. -/
theorem dispose (h : Books s) {p : H} (huser : s.user p = true) (hlive : s.live p = some k) :
    Books ((s.freeIf k (some p)).setUser false (some p)) := by
  refine ⟨h.ledger.freeOwn huser, fun j o x hx => ?_, ?_⟩
  · have hne : x ≠ p := by
      rintro rfl
      exact h.ledger.own_apart huser (j, o) hx
    show update s.live p none x = some j
    rw [update_of_ne hne]
    exact h.typed j o x hx
  · simp [State.freeIf, State.setUser, List.foldlM_append, h.accepted, nng, hlive]

theorem run_acquire_ok (fn : String) (p : H) :
    (Pointer.acquire k fn this (.ok p)).run s =
      .ok () { s.gain k p with obj := Pointer.adopt s.obj (k, this) (some p) } := by
  simp [Pointer.acquire]

theorem run_acquire_error (fn : String) (e : Failure) :
    (Pointer.acquire k fn this (.error e : Answer H)).run s = .error ⟨e.val, fn⟩ s := by
  simp [Pointer.acquire]

/-- A constructor gets a handle, or it throws and there is no object. -/
theorem acquire (h : Books s) (fn : String) (hthis : s.obj (k, this) = none) {ans : Answer H}
    (hfresh : ∀ p, ans = .ok p → s.live p = none) : Books (leaves (acquire k fn this ans) s) := by
  cases ans with
  | error e =>
      rw [leaves_of_error (run_acquire_error fn e)]
      exact h
  | ok p =>
      -- as if the user had got the handle and put it into the object
      have hp : s.live p = none := hfresh p rfl
      have hadopted : Books { ((s.gain k p).setUser true (some p)).setUser false (some p) with
          obj := Pointer.adopt s.obj (k, this) (some p) } := by
        apply (h.obtain hp).adopt hthis
        intro x hx
        obtain rfl := Option.some.inj hx
        exact ⟨update_self .., update_self ..⟩
      have huser : update (update s.user p true) p false = s.user := by
        have hfalse : s.user p = false := by
          by_contra htrue
          exact h.ledger.own_live (Bool.eq_true_of_not_eq_false htrue) hp
        rw [update_idem, ← hfalse, update_eq_self]
      rw [leaves_of_ok (run_acquire_ok fn p)]
      simpa [State.setUser, State.gain, huser] using hadopted

/-- Every member keeps the books. -/
theorem step (h : Books s) {op : Op O H} (hop : Enabled s op) : Books (exec s op) := by
  cases op with
  | default k this => exact h.default hop
  | acquire k fn this ans => exact h.acquire fn hop.1 hop.2.2
  | adopt k this p => exact h.adopt hop.1 hop.2
  | moveCtor k this rhs => exact h.moveCtor hop.1 hop.2
  | moveAssign k this rhs => exact h.moveAssign this rhs
  | destroy k this => exact h.destroy this
  | release k this => exact h.release this
  | obtain k p => exact h.obtain hop
  | dispose k p => exact h.dispose hop.1 hop.2

end Books

/-! ### Runs -/

/-- In every run of the members, over objects of all the classes: nng accepts each of the
calls, so that no handle is freed twice or by the function of another class; an
object that has a live handle is the only one, is of the class of the handle, and the
handle is not the user's; every other live handle is the user's. -/
theorem handles_balanced {tr : List (Transition (State O H) (Op O H))} {s : State O H}
    (run : Run Step .init tr s) :
    s.asked.foldlM nng (fun _ => none) = some s.live ∧
    (∀ k o p, get s.obj (k, o) = some p →
      s.live p = some k ∧ s.user p = false ∧ ∀ q, get s.obj q = some p → q = (k, o)) ∧
    ∀ p, s.live p ≠ none → (∀ q, get s.obj q ≠ some p) → s.user p = true := by
  have hbooks : Books s := by
    apply run.invariant Books.init
    rintro t op _ ht ⟨hop, rfl⟩
    exact ht.step hop
  refine ⟨hbooks.accepted, fun k o p hp => ⟨hbooks.typed k o p hp, ?_, fun q hq => ?_⟩,
    fun p hlive hfree => ?_⟩
  · by_contra huser
    exact hbooks.ledger.own_apart (Bool.eq_true_of_not_eq_false huser) (k, o) hp
  · exact hbooks.ledger.exclusive hq hp
  · exact (hbooks.ledger.covered hlive).resolve_right fun ⟨q, hq⟩ => hfree q hq

/-- An address is used for a request, and when this is freed for a stream, which the user
puts into an object. -/
def reused : List (Op ℕ ℕ) :=
  [.acquire .httpReq "nng_http_req_alloc" 0 (.ok 7), .default .httpReq 1, .moveAssign .httpReq 0 1,
    .obtain .stream 7, .adopt .stream 0 (some 7)]

theorem handles_balanced_reused :
    (reused.foldl exec .init).asked = [.acquired .httpReq 7, .freed "nng_http_req_free" 7,
      .acquired .stream 7] ∧
    (reused.foldl exec .init).live 7 = some .stream ∧ (reused.foldl exec .init).user 7 = false := by
  have allowed : Run.AllEnabled Enabled exec .init reused := by
    refine ⟨⟨rfl, ?_, fun _ _ => rfl⟩, rfl, ⟨?_, ?_⟩, rfl, ⟨rfl, fun x hx => ?_⟩, trivial⟩
    · exact List.mem_singleton_self _
    · intro h
      cases h
    · intro h
      cases h
    · obtain rfl := Option.some.inj hx
      exact ⟨rfl, rfl⟩
  obtain ⟨-, hheld, -⟩ := handles_balanced (Run.of_exec allowed)
  obtain ⟨hlive, huser, -⟩ := hheld .stream 0 7 rfl
  exact ⟨rfl, hlive, huser⟩

end Nngpp.Pointer
