import Nngpp.Ids.Wrapper
import Nngpp.Lib.Custody
import Nngpp.Lib.Run
import Nngpp.Pointer

/-!
The move-only classes conserve references.

Two disciplines are put side by side. The ids are unique, and giving one back can
fail, with any code; the configurations of `tls::config` are counted, and giving a
reference back cannot fail. The accounts of both are the same: how often nng has
given a reference, how many of these the caller has for itself, and the calls of
the close functions, or of the free function, so far.

A call of a close function spends the reference if the wrapper lets go of the id
with it. A destructor does so whatever the answer; a move assignment does so
unless the answer makes it throw, and then the wrapper still has the id. With this
reading of the calls the books balance after every operation
(`references_conserved`).
-/

namespace Nngpp.Ids

open Function Lib

/-! ### The accounts of the ids -/

/-- A call of a close function. -/
structure CloseCall where
  ref : Kind × ℕ
  result : Error
  fromDestructor : Bool

/-- The wrapper that made the call has let go of the id. -/
def CloseCall.final (c : CloseCall) : Bool := c.fromDestructor || !refuses c.ref.1 c.result

structure Accounts where
  gained : Kind × ℕ → ℕ
  loose : Kind × ℕ → ℕ
  calls : List CloseCall

/-- nng gives a reference. -/
def Accounts.gain (n : Accounts) (x : Kind × ℕ) : Accounts :=
  { n with gained := update n.gained x (n.gained x + 1) }

/-- The caller gets a reference for itself. -/
def Accounts.keep (n : Accounts) (x : Kind × ℕ) : Accounts :=
  { n with loose := update n.loose x (n.loose x + 1) }

/-- The caller gives a reference of its own away. -/
def Accounts.part (n : Accounts) (x : Kind × ℕ) : Accounts :=
  { n with loose := update n.loose x (n.loose x - 1) }

/-- How often a reference has been passed to its close function for good. -/
def spent (calls : List CloseCall) (x : Kind × ℕ) : ℕ :=
  (calls.filter fun c => c.ref = x ∧ c.final).length

/-- A close function that gives a certain answer. -/
def closing (fromDestructor : Bool) (r : Error) : Close Accounts :=
  fun x n => (r, { n with calls := n.calls ++ [⟨x, r, fromDestructor⟩] })

variable {O H : Type}

/-- What the wrappers hold. -/
def held (obj : Kind × O → Option ℕ) : Kind × O → Option (Kind × ℕ) := fun p =>
  (obj p).bind fun id => if id = 0 then none else some (p.1, id)

section Model

variable [DecidableEq O]

/-- A constructor or a make function that gets an id from nng. -/
def acquire (source : String) (k : Kind) (this : O) (ans : Answer ℕ) : Call O Accounts Unit := do
  let id ← orThrow ans source
  modify fun w => { w with nng := w.nng.gain (k, id) }
  setId k this id

/-- The operations on the wrappers, with nng's answers. -/
inductive Op (O : Type)
  | default (k : Kind) (this : O)
  | acquire (source : String) (k : Kind) (this : O) (ans : Answer ℕ)
  | adopt (k : Kind) (this : O) (id : ℕ)
  | moveCtor (k : Kind) (this rhs : O)
  | moveAssign (k : Kind) (this rhs : O) (r : Error)
  | swap (k : Kind) (a b tmp : O) (r rTmp : Error)
  | release (k : Kind) (this : O)
  | destroy (k : Kind) (this : O) (r : Error)

/-- The caller gives away an id, by having it adopted, or gets one, by `release()`. -/
def Op.call : Op O → Call O Accounts Unit
  | .default k this => Ids.default k this
  | .acquire source k this ans => Ids.acquire source k this ans
  | .adopt k this id => do
      modify fun w => { w with nng := w.nng.part (k, id) }
      Ids.adopt k this id
  | .moveCtor k this rhs => Ids.moveCtor k this rhs
  | .moveAssign k this rhs r => Ids.moveAssign (closing false r) k this rhs
  | .swap k a b tmp r rTmp => Ids.swap (closing false r) (closing true rTmp) k a b tmp
  | .release k this => do
      let id ← Ids.release k this
      if id ≠ 0 then
        modify fun w => { w with nng := w.nng.keep (k, id) }
  | .destroy k this r => Ids.destroy (closing true r) k this

/-- What the program must see to: constructors get fresh storage, the other
members an object, and what is adopted is the caller's own. What nng sees to: an
id it gives was never used before. -/
def Enabled (w : World O Accounts) : Op O → Prop
  | .default k this => w.obj (k, this) = none
  | .acquire _ k this ans => w.obj (k, this) = none ∧
      ∀ id, ans = .ok id → id ≠ 0 ∧ w.nng.gained (k, id) = 0
  | .adopt k this id => w.obj (k, this) = none ∧ w.nng.loose (k, id) ≠ 0
  | .moveCtor k this rhs => w.obj (k, this) = none ∧ w.obj (k, rhs) ≠ none
  | .moveAssign k this rhs _ => w.obj (k, this) ≠ none ∧ w.obj (k, rhs) ≠ none
  | .swap k a b tmp _ _ =>
      w.obj (k, a) ≠ none ∧ w.obj (k, b) ≠ none ∧ w.obj (k, tmp) = none
  | .release k this => w.obj (k, this) ≠ none
  | .destroy k this _ => w.obj (k, this) ≠ none

def World.init : World O Accounts where
  obj _ := none
  nng := ⟨fun _ => 0, fun _ => 0, []⟩

end Model

/-! ### The balance of the ids -/

/-- The books balance, and no id was given twice. -/
structure Balanced (w : World O Accounts) : Prop where
  conserved : Conserved (held w.obj) w.nng.gained w.nng.loose (spent w.nng.calls)
  unique : ∀ x, w.nng.gained x ≤ 1
  /-- No id is zero. -/
  nonzero : ∀ k, w.nng.loose (k, 0) = 0

theorem spent_append (calls : List CloseCall) (c : CloseCall) :
    spent (calls ++ [c]) =
      if c.final then update (spent calls) c.ref (spent calls c.ref + 1) else spent calls := by
  funext x
  by_cases hc : c.final
  · by_cases hx : c.ref = x
    · subst hx; simp [spent, hc, List.filter_append]
    · simp [spent, hc, List.filter_append, hx, Ne.symm hx]
  · simp [spent, hc, List.filter_append]

theorem held_of_id_zero {w : World O Accounts} {k : Kind} {this : O} (h : w.id k this = 0) :
    held w.obj (k, this) = none := by
  cases hobj : w.obj (k, this) with
  | none => simp [held, hobj]
  | some id =>
      have hid : id = 0 := by simpa [World.id, hobj] using h
      simp [held, hobj, hid]

theorem held_of_id_ne {w : World O Accounts} {k : Kind} {this : O} (h : w.id k this ≠ 0) :
    held w.obj (k, this) = some (k, w.id k this) := by
  cases hobj : w.obj (k, this) with
  | none => simp [World.id, hobj] at h
  | some id =>
      have hid : id ≠ 0 := by simpa [World.id, hobj] using h
      simp [held, hobj, hid, World.id]

section Steps

variable [DecidableEq O] {w : World O Accounts}

theorem held_update (obj : Kind × O → Option ℕ) (p : Kind × O) (x : Option ℕ) :
    held (update obj p x) =
      update (held obj) p (x.bind fun id => if id = 0 then none else some (p.1, id)) := by
  funext q
  rcases eq_or_ne q p with rfl | hq
  · simp [held]
  · simp [held, hq]

@[simp] theorem held_update_none (obj : Kind × O → Option ℕ) (p : Kind × O) :
    held (update obj p none) = update (held obj) p none := by
  simp [held_update]

@[simp] theorem held_update_zero (obj : Kind × O → Option ℕ) (p : Kind × O) :
    held (update obj p (some 0)) = update (held obj) p none := by
  simp [held_update]

theorem held_update_ne (obj : Kind × O → Option ℕ) (k : Kind) (this : O) {id : ℕ} (hid : id ≠ 0) :
    held (update obj (k, this) (some id)) = update (held obj) (k, this) (some (k, id)) := by
  simp [held_update, hid]

/-- A wrapper gets what another of its kind holds. -/
theorem held_update_id (w : World O Accounts) (k : Kind) (this rhs : O) :
    held (update w.obj (k, this) (some (w.id k rhs))) =
      update (held w.obj) (k, this) (held w.obj (k, rhs)) := by
  by_cases hid : w.id k rhs = 0
  · rw [hid, held_update_zero, held_of_id_zero hid]
  · rw [held_update_ne _ _ _ hid, held_of_id_ne hid]

omit [DecidableEq O] in
theorem held_empty {p : Kind × O} (h : w.obj p = none) : held w.obj p = none := by
  simp [held, h]

/-- A wrapper that holds nothing is made, or unmade. -/
theorem Balanced.drop (hw : Balanced w) {p : Kind × O} (hp : held w.obj p = none) {x : Option ℕ}
    (hx : x = none ∨ x = some 0) : Balanced { w with obj := update w.obj p x } := by
  have hsame : update (held w.obj) p none = held w.obj := by rw [← hp, update_eq_self]
  refine ⟨?_, hw.unique, hw.nonzero⟩
  rcases hx with rfl | rfl <;> simpa [hsame] using hw.conserved

/-- A wrapper that holds nothing takes what another holds. -/
theorem Balanced.move (hw : Balanced w) {k : Kind} {this : O} (rhs : O)
    (hp : held w.obj (k, this) = none) :
    Balanced { w with
      obj := update (update w.obj (k, this) (some (w.id k rhs))) (k, rhs) (some 0) } := by
  refine ⟨?_, hw.unique, hw.nonzero⟩
  simpa [held_update_id] using hw.conserved.move (q := (k, rhs)) hp

/-- A wrapper passes its id to the close function, and lets go of it. -/
theorem Balanced.spend (hw : Balanced w) {k : Kind} {this : O} (hid : w.id k this ≠ 0)
    {x : Option ℕ} (hx : x = none ∨ x = some 0) {c : CloseCall} (href : c.ref = (k, w.id k this))
    (hc : c.final = true) :
    Balanced { w with
      obj := update w.obj (k, this) x
      nng := { w.nng with calls := w.nng.calls ++ [c] } } := by
  refine ⟨?_, hw.unique, hw.nonzero⟩
  have hspend := hw.conserved.spend (held_of_id_ne hid)
  rcases hx with rfl | rfl <;> simpa [spent_append, hc, href] using hspend

theorem Balanced.destroy (hw : Balanced w) (k : Kind) (this : O) (r : Error) :
    Balanced (leaves (Ids.destroy (closing true r) k this) w) := by
  by_cases hid : w.id k this = 0
  · rw [leaves_of_ok (run_destroy_null _ hid)]
    exact hw.drop (held_of_id_zero hid) (.inl rfl)
  · have hrun : (Ids.destroy (closing true r) k this).run w = .ok () { w with
        obj := update w.obj (k, this) none
        nng := { w.nng with calls := w.nng.calls ++ [⟨(k, w.id k this), r, true⟩] } } := by
      simp [Ids.destroy, hid, closing]
    rw [leaves_of_ok hrun]
    exact hw.spend hid (.inl rfl) rfl rfl

/-- The move assignment: whether it goes on or throws, nothing is lost. -/
theorem Balanced.moveAssign (hw : Balanced w) (k : Kind) (this rhs : O) (r : Error) :
    Balanced (leaves (Ids.moveAssign (closing false r) k this rhs) w) := by
  rcases eq_or_ne this rhs with rfl | hne
  · rwa [leaves_of_ok (run_moveAssign_self _ k this w)]
  by_cases hid : w.id k this = 0
  · rw [leaves_of_ok (run_moveAssign_null _ hne w hid)]
    exact hw.move rhs (held_of_id_zero hid)
  cases hr : refuses k r with
  | true =>
      rw [leaves_of_error (run_moveAssign_of_refuses (closing false r) hne w hid hr)]
      -- the call was not final: the wrapper still has its id
      refine ⟨?_, hw.unique, hw.nonzero⟩
      simpa [closing, spent_append, CloseCall.final, hr] using hw.conserved
  | false =>
      rw [leaves_of_ok (run_moveAssign_of_accepts (closing false r) hne w hid hr)]
      have hspent := hw.spend hid (c := ⟨(k, w.id k this), r, false⟩) (.inr rfl) rfl
        (by simp [CloseCall.final, hr])
      have hempty : held (update w.obj (k, this) (some 0)) (k, this) = none := by simp
      simpa [World.id, Ne.symm hne, closing] using hspent.move rhs hempty

theorem Balanced.acquire (hw : Balanced w) (source : String) {k : Kind} {this : O}
    (hthis : w.obj (k, this) = none) {ans : Answer ℕ}
    (hans : ∀ id, ans = .ok id → id ≠ 0 ∧ w.nng.gained (k, id) = 0) :
    Balanced (leaves (Ids.acquire source k this ans) w) := by
  match ans with
  | .error e =>
      have hrun : (Ids.acquire source k this (.error e)).run w = .error ⟨e.val, source⟩ w := by
        simp [Ids.acquire]
      rwa [leaves_of_error hrun]
  | .ok id =>
      obtain ⟨hid, hnew⟩ := hans id rfl
      have hrun : (Ids.acquire source k this (.ok id)).run w = .ok () { w with
          obj := update w.obj (k, this) (some id)
          nng := w.nng.gain (k, id) } := by
        simp [Ids.acquire]
      rw [leaves_of_ok hrun]
      refine ⟨?_, fun x => ?_, hw.nonzero⟩
      · rw [held_update_ne _ _ _ hid]
        exact hw.conserved.gain (held_empty hthis) (k, id)
      · by_cases hx : x = (k, id)
        · subst hx; simp [Accounts.gain, hnew]
        · simpa [Accounts.gain, hx] using hw.unique x

theorem Balanced.adopt (hw : Balanced w) {k : Kind} {this : O} (hthis : w.obj (k, this) = none)
    {id : ℕ} (hloose : w.nng.loose (k, id) ≠ 0) :
    Balanced { w with
      obj := update w.obj (k, this) (some id)
      nng := w.nng.part (k, id) } := by
  have hid : id ≠ 0 := by rintro rfl; exact hloose (hw.nonzero k)
  refine ⟨?_, hw.unique, fun l => ?_⟩
  · rw [held_update_ne _ _ _ hid]
    exact hw.conserved.adopt (held_empty hthis) hloose
  · have hne : (l, 0) ≠ (k, id) := fun h => hid (Prod.mk.inj h).2.symm
    simpa [Accounts.part, hne] using hw.nonzero l

theorem Balanced.release (hw : Balanced w) (k : Kind) (this : O) :
    Balanced (leaves (Op.release k this).call w) := by
  by_cases hid : w.id k this = 0
  · have hrun : (Op.release k this).call.run w = .ok () { w with
        obj := update w.obj (k, this) (some 0) } := by
      simp [Op.call, Ids.release, hid]
    rw [leaves_of_ok hrun]
    exact hw.drop (held_of_id_zero hid) (.inr rfl)
  · have hrun : (Op.release k this).call.run w = .ok () { w with
        obj := update w.obj (k, this) (some 0)
        nng := w.nng.keep (k, w.id k this) } := by
      simp [Op.call, Ids.release, hid]
    rw [leaves_of_ok hrun]
    refine ⟨?_, hw.unique, fun l => ?_⟩
    · simpa [Accounts.keep] using hw.conserved.surrender (held_of_id_ne hid)
    · have hne : (l, 0) ≠ (k, w.id k this) := fun h => hid (Prod.mk.inj h).2.symm
      simpa [Accounts.keep, hne] using hw.nonzero l

theorem Balanced.swap (hw : Balanced w) (close closeTmp : Close Accounts) (k : Kind) {a b tmp : O}
    (ha : w.obj (k, a) ≠ none) (hb : w.obj (k, b) ≠ none) (htmp : w.obj (k, tmp) = none) :
    Balanced (leaves (Ids.swap close closeTmp k a b tmp) w) := by
  rw [leaves_of_ok (run_swap close closeTmp k ha hb htmp)]
  refine ⟨?_, hw.unique, hw.nonzero⟩
  have hheld : held (update (update w.obj (k, a) (w.obj (k, b))) (k, b) (w.obj (k, a))) =
      update (update (held w.obj) (k, a) (held w.obj (k, b))) (k, b) (held w.obj (k, a)) := by
    simp [held_update, held]
  rw [hheld]
  exact hw.conserved.exchange _ _

/-- Every enabled operation keeps the balance, whether it returns or throws. -/
theorem balanced_step (hw : Balanced w) (op : Op O) (hop : Enabled w op) :
    Balanced (leaves op.call w) := by
  cases op with
  | default k this => exact hw.drop (held_empty hop) (.inr rfl)
  | acquire source k this ans => exact hw.acquire source hop.1 hop.2
  | adopt k this id => exact hw.adopt hop.1 hop.2
  | moveCtor k this rhs =>
      rw [Op.call, leaves_of_ok (run_moveCtor k w)]
      exact hw.move rhs (held_empty hop.1)
  | moveAssign k this rhs r => exact hw.moveAssign k this rhs r
  | swap k a b tmp r rTmp => exact hw.swap _ _ k hop.1 hop.2.1 hop.2.2
  | release k this => exact hw.release k this
  | destroy k this r => exact hw.destroy k this r

omit [DecidableEq O] in
theorem balanced_init : Balanced (World.init : World O Accounts) where
  conserved := Conserved.empty
  unique _ := by simp [World.init]
  nonzero _ := rfl

end Steps

/-! ### The configurations -/

/-- The objects of `tls::config`, the accounts, and the calls of
`nng_tls_config_free`. -/
structure Configs (O H : Type) where
  obj : Pointer.Table O H
  gained : H → ℕ
  loose : H → ℕ
  freed : List H

/-- How often a reference has been freed. -/
def frees [DecidableEq H] (freed : List H) (c : H) : ℕ := freed.count c

namespace Configs

variable [DecidableEq O] [DecidableEq H]

/-- `if( c != nullptr ) nng_tls_config_free(c);`. -/
def freeIf (s : Configs O H) (p : Option H) : Configs O H :=
  { s with freed := s.freed ++ p.toList }

/-- `explicit config( mode mode )`. -/
def alloc (this : O) (ans : Answer H) : EStateM Exception (Configs O H) Unit := do
  let c ← orThrow ans "nng_tls_config_alloc"
  modify fun s => { s with
    gained := update s.gained c (s.gained c + 1)
    obj := Pointer.adopt s.obj this (some c) }

/-- `explicit config( nng_tls_config* c )`, on a reference of the caller's. -/
def adopt (s : Configs O H) (this : O) (c : H) : Configs O H :=
  { s with
    loose := update s.loose c (s.loose c - 1)
    obj := Pointer.adopt s.obj this (some c) }

/-- `config config_view::hold() const`, into the object `out`. -/
def hold (s : Configs O H) (c : H) (out : O) : Configs O H :=
  { s with
    gained := update s.gained c (s.gained c + 1)
    obj := Pointer.adopt s.obj out (some c) }

/-- `config( config&& rhs )`. -/
def moveCtor (s : Configs O H) (this rhs : O) : Configs O H :=
  { s with obj := Pointer.moveCtor s.obj this rhs }

/-- `config& operator=( config&& rhs )`. -/
def moveAssign (s : Configs O H) (this rhs : O) : Configs O H :=
  let r := Pointer.moveAssign s.obj this rhs
  { s with obj := r.1 }.freeIf r.2

/-- `~config()`. -/
def destroy (s : Configs O H) (this : O) : Configs O H :=
  let r := Pointer.destroy s.obj this
  { s with obj := r.1 }.freeIf r.2

/-- `release()`; the caller gets the reference. -/
def release (s : Configs O H) (this : O) : Configs O H :=
  let r := Pointer.release s.obj this
  match r.2 with
  | none => { s with obj := r.1 }
  | some c => { s with obj := r.1, loose := update s.loose c (s.loose c + 1) }

/-- `std::swap`, with the local variable `tmp`. -/
def swap (s : Configs O H) (a b tmp : O) : Configs O H :=
  (((s.moveCtor tmp a).moveAssign a b).moveAssign b tmp).destroy tmp

def init : Configs O H := ⟨fun _ => none, fun _ => 0, fun _ => 0, []⟩

/-- The operations on the configurations, with nng's answers. -/
inductive Op (O H : Type)
  | default (this : O)
  | alloc (this : O) (ans : Answer H)
  | adopt (this : O) (c : H)
  | hold (c : H) (out : O)
  | moveCtor (this rhs : O)
  | moveAssign (this rhs : O)
  | swap (a b tmp : O)
  | release (this : O)
  | destroy (this : O)

def Op.call : Op O H → EStateM Exception (Configs O H) Unit
  | .default this => modify fun s => { s with obj := Pointer.default s.obj this }
  | .alloc this ans => Configs.alloc this ans
  | .adopt this c => modify fun s => s.adopt this c
  | .hold c out => modify fun s => s.hold c out
  | .moveCtor this rhs => modify fun s => s.moveCtor this rhs
  | .moveAssign this rhs => modify fun s => s.moveAssign this rhs
  | .swap a b tmp => modify fun s => s.swap a b tmp
  | .release this => modify fun s => s.release this
  | .destroy this => modify fun s => s.destroy this

/-- A configuration is live while somebody has a reference. -/
def Enabled (s : Configs O H) : Op O H → Prop
  | .default this => s.obj this = none
  | .alloc this _ => s.obj this = none
  | .adopt this c => s.obj this = none ∧ s.loose c ≠ 0
  | .hold c out => s.obj out = none ∧ frees s.freed c < s.gained c
  | .moveCtor this rhs => s.obj this = none ∧ s.obj rhs ≠ none
  | .moveAssign this rhs => s.obj this ≠ none ∧ s.obj rhs ≠ none
  | .swap a b tmp => s.obj a ≠ none ∧ s.obj b ≠ none ∧ s.obj tmp = none
  | .release this => s.obj this ≠ none
  | .destroy this => s.obj this ≠ none

/-! #### Their balance -/

def Balanced (s : Configs O H) : Prop :=
  Conserved (Pointer.get s.obj) s.gained s.loose (frees s.freed)

omit [DecidableEq O] in
theorem balanced_init : Balanced (init : Configs O H) := Conserved.empty

variable {s : Configs O H}

omit [DecidableEq O] in
theorem frees_append (freed : List H) (c : H) :
    frees (freed ++ [c]) = update (frees freed) c (frees freed c + 1) := by
  funext d
  rcases eq_or_ne d c with rfl | hd
  · simp [frees]
  · simp [frees, hd, Ne.symm hd]

/-- An object that holds nothing may be anything else that holds nothing. -/
theorem Balanced.drop (hs : s.Balanced) {this : O} (hp : Pointer.get s.obj this = none)
    {x : Option (Option H)} (hx : x.join = none) :
    Balanced { s with obj := update s.obj this x } := by
  have hsame : update (Pointer.get s.obj) this none = Pointer.get s.obj := by
    rw [← hp, update_eq_self]
  unfold Balanced at hs ⊢
  simpa [hx, hsame] using hs

/-- An object frees what it holds, and forgets it. -/
theorem Balanced.free (hs : s.Balanced) (this : O) {x : Option (Option H)} (hx : x.join = none) :
    Balanced ({ s with obj := update s.obj this x }.freeIf (Pointer.get s.obj this)) := by
  cases hp : Pointer.get s.obj this with
  | none => simpa [freeIf] using hs.drop hp hx
  | some c =>
      have hspend : Conserved _ _ _ _ := Conserved.spend hs hp
      unfold Balanced
      simpa [freeIf, hx, frees_append] using hspend

theorem Balanced.move (hs : s.Balanced) {this : O} (rhs : O) (hp : Pointer.get s.obj this = none) :
    Balanced { s with
      obj := update (update s.obj this (some (Pointer.get s.obj rhs))) rhs (some none) } := by
  unfold Balanced
  simpa using Conserved.move (q := rhs) hs hp

theorem Balanced.moveAssign (hs : s.Balanced) (this rhs : O) :
    (s.moveAssign this rhs).Balanced := by
  by_cases hne : this = rhs
  · simpa [Configs.moveAssign, hne, freeIf] using hs
  · have hempty : Pointer.get (update s.obj this (some none)) this = none := by simp
    have hmove := (hs.free this (x := some none) rfl).move rhs hempty
    simpa [Configs.moveAssign, Pointer.moveAssign_of_ne _ hne, freeIf, Ne.symm hne] using hmove

theorem Balanced.destroy (hs : s.Balanced) (this : O) : (s.destroy this).Balanced :=
  hs.free this rfl

theorem Balanced.moveCtor (hs : s.Balanced) {this : O} (rhs : O) (hthis : s.obj this = none) :
    (s.moveCtor this rhs).Balanced :=
  hs.move rhs (by simp [Pointer.get, hthis])

/-- A new object takes one more reference. -/
theorem Balanced.gain (hs : s.Balanced) {this : O} (hthis : s.obj this = none) (c : H) :
    Balanced { s with
      gained := update s.gained c (s.gained c + 1)
      obj := Pointer.adopt s.obj this (some c) } := by
  have hempty : Pointer.get s.obj this = none := by simp [Pointer.get, hthis]
  unfold Balanced
  simpa [Pointer.adopt] using Conserved.gain hs hempty c

theorem Balanced.release (hs : s.Balanced) (this : O) : (s.release this).Balanced := by
  cases hp : Pointer.get s.obj this with
  | none => simpa [Configs.release, Pointer.release, hp] using hs.drop hp (x := some none) rfl
  | some c =>
      have hkeep : Conserved _ _ _ _ := Conserved.surrender hs hp
      unfold Balanced
      simpa [Configs.release, Pointer.release, hp] using hkeep

theorem balanced_step (hs : s.Balanced) (op : Op O H) (hop : Enabled s op) :
    (leaves op.call s).Balanced := by
  cases op with
  | default this =>
      have hempty : Pointer.get s.obj this = none := by
        rw [Pointer.get, show s.obj this = none from hop]; rfl
      exact hs.drop hempty rfl
  | alloc this ans =>
      cases ans with
      | error e =>
          have hrun : (Op.alloc this (.error e)).call.run s =
              .error ⟨e.val, "nng_tls_config_alloc"⟩ s := by simp [Op.call, alloc]
          rwa [leaves_of_error hrun]
      | ok c => exact hs.gain hop c
  | adopt this c =>
      have hempty : Pointer.get s.obj this = none := by simp [Pointer.get, hop.1]
      have hadopt : Conserved _ _ _ _ := Conserved.adopt hs hempty hop.2
      show Balanced (s.adopt this c)
      unfold Balanced
      simpa [Configs.adopt, Pointer.adopt] using hadopt
  | hold c out => exact hs.gain hop.1 c
  | moveCtor this rhs => exact hs.moveCtor rhs hop.1
  | moveAssign this rhs => exact hs.moveAssign this rhs
  | swap a b tmp => exact (((hs.moveCtor a hop.2.2).moveAssign a b).moveAssign b tmp).destroy tmp
  | release this => exact hs.release this
  | destroy this => exact hs.destroy this

end Configs

/-! ### Whole runs -/

/-- The wrappers of ids and the configurations. -/
structure Wrappers (O H : Type) where
  ids : World O Accounts
  configs : Configs O H

namespace Wrappers

variable [DecidableEq O] [DecidableEq H]

abbrev Op (O H : Type) := Ids.Op O ⊕ Configs.Op O H

def Enabled (s : Wrappers O H) : Op O H → Prop
  | .inl op => Ids.Enabled s.ids op
  | .inr op => s.configs.Enabled op

/-- After an exception the run goes on with what is left. -/
def exec (s : Wrappers O H) : Op O H → Wrappers O H
  | .inl op => { s with ids := leaves op.call s.ids }
  | .inr op => { s with configs := leaves op.call s.configs }

def Step (s : Wrappers O H) (op : Op O H) (s' : Wrappers O H) : Prop :=
  s.Enabled op ∧ s' = s.exec op

def init : Wrappers O H := ⟨World.init, Configs.init⟩

def Balanced (s : Wrappers O H) : Prop := Ids.Balanced s.ids ∧ s.configs.Balanced

theorem balanced_step {s : Wrappers O H} (hs : s.Balanced) (op : Op O H) (hop : s.Enabled op) :
    (s.exec op).Balanced := by
  cases op with
  | inl op => exact ⟨Ids.balanced_step hs.1 op hop, hs.2⟩
  | inr op => exact ⟨hs.1, Configs.balanced_step hs.2 op hop⟩

end Wrappers

section Runs

variable [DecidableEq O] [DecidableEq H]

/-- A move assignment that throws leaves both wrappers with what they held; one
that returns has moved the id over, unless it was a self-assignment, which
changes nothing. -/
structure KeepsOperands (w : World O Accounts) (k : Kind) (this rhs : O) (r : Error) : Prop where
  throws : ∀ x w', (moveAssign (closing false r) k this rhs).run w = .error x w' → w'.obj = w.obj
  returns : ∀ w', (moveAssign (closing false r) k this rhs).run w = .ok () w' →
    if this = rhs then w' = w
    else w'.obj = update (update w.obj (k, this) (some (w.id k rhs))) (k, rhs) (some 0)

theorem keepsOperands (w : World O Accounts) (k : Kind) (this rhs : O) (r : Error) :
    KeepsOperands w k this rhs r := by
  rcases eq_or_ne this rhs with rfl | hne
  · have hrun := run_moveAssign_self (closing false r) k this w
    constructor
    · intro x w' h
      rw [hrun] at h; cases h
    · intro w' h
      rw [hrun] at h; cases h
      simp
  · have hrun := run_moveAssign (closing false r) hne w k
    cases ha : assigned k (w.id k this) (w.id k rhs)
        (closing false r (k, w.id k this) w.nng).1 with
    | error e =>
        rw [ha] at hrun
        constructor
        · intro x w' h
          rw [hrun] at h; cases h
          exact w.obj_closeOld _ k this
        · intro w' h
          rw [hrun] at h; cases h
    | ok ids =>
        rw [ha] at hrun
        have hids : ids = (w.id k rhs, 0) := by
          unfold assigned at ha
          split at ha
          · cases ha
          · exact (Except.ok.inj ha).symm
        subst hids
        constructor
        · intro x w' h
          rw [hrun] at h; cases h
        · intro w' h
          rw [hrun] at h; cases h
          simp [hne]

/-- At every point of every run each reference that nng gave, of an id or of a
configuration, is in exactly one wrapper, or the caller's, or has been passed to
its close or free function for good; ids were given once; and the move
assignments that threw left both wrappers as they were. -/
theorem references_conserved
    {tr : List (Transition (Wrappers O H) (Wrappers.Op O H))} {s : Wrappers O H}
    (run : Run Wrappers.Step Wrappers.init tr s) :
    (∀ x, s.ids.nng.gained x =
      holders (held s.ids.obj) x + s.ids.nng.loose x + spent s.ids.nng.calls x) ∧
    (∀ x, s.ids.nng.gained x ≤ 1) ∧
    (∀ c, s.configs.gained c =
      holders (Pointer.get s.configs.obj) c + s.configs.loose c + frees s.configs.freed c) ∧
    ∀ e ∈ tr, ∀ k this rhs r, e.label = .inl (.moveAssign k this rhs r) →
      KeepsOperands e.pre.ids k this rhs r := by
  have hs : s.Balanced := by
    refine run.invariant (I := Wrappers.Balanced) ⟨balanced_init, Configs.balanced_init⟩ ?_
    rintro s op s' hs ⟨hop, rfl⟩
    exact Wrappers.balanced_step hs op hop
  exact ⟨hs.1.conserved.balance, hs.1.unique, hs.2.balance,
    fun e _ k this rhs r _ => keepsOperands e.pre.ids k this rhs r⟩

/-- Two dialers; closing the first fails when the second is assigned to it, and
they are swapped instead. -/
theorem references_conserved_dialers :
    let ops : List (Wrappers.Op ℕ ℕ) :=
      [.inl (.acquire "nng_dial" .dialer 0 (.ok 7)), .inl (.acquire "nng_dial" .dialer 1 (.ok 8)),
        .inl (.moveAssign .dialer 0 1 .timedout), .inl (.swap .dialer 0 1 2 .success .success),
        .inr (.alloc 0 (.ok 5)), .inr (.hold 5 1)]
    let s := ops.foldl Wrappers.exec Wrappers.init
    s.ids.obj (.dialer, 0) = some 8 ∧
      s.ids.nng.gained (.dialer, 7) =
        holders (held s.ids.obj) (.dialer, 7) + s.ids.nng.loose (.dialer, 7) +
          spent s.ids.nng.calls (.dialer, 7) := by
  intro ops s
  have allowed : Run.AllEnabled Wrappers.Enabled Wrappers.exec Wrappers.init ops :=
    ⟨⟨rfl, fun id h => by cases h; exact ⟨by decide, rfl⟩⟩,
      ⟨rfl, fun id h => by cases h; exact ⟨by decide, rfl⟩⟩, ⟨nofun, nofun⟩,
      ⟨nofun, nofun, rfl⟩, rfl, ⟨rfl, by decide⟩, trivial⟩
  exact ⟨rfl, (references_conserved (Run.of_exec allowed)).1 _⟩

end Runs

end Nngpp.Ids
