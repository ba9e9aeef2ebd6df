import Nngpp.Buffer.Ledger

/-!
What the buffers show, and what an operation can change of it.

A `view` compares by size and bytes, so what a buffer shows is these two and not
its pointer. `memcmp` is read over the bytes the pointers lead to, and `View.eq`
is equality as long as both views have the bytes their sizes promise, which in a
balanced memory they do (`Balanced.view_whole`).

A program also writes through `data()`; the runs here have that as a step of
their own. The frame is said once: an operation names the objects it works on,
and every other buffer shows afterwards what it showed before (`keeps_step`,
`view_run`).
-/

namespace Nngpp.Buffer

open Function Lib

/-! ### Views -/

/-- `memcmp(a,b,n)`: the first difference decides. -/
def memcmp : List UInt8 → List UInt8 → ℕ → ℤ
  | a :: as, b :: bs, n + 1 => if a = b then memcmp as bs n else (a.toNat : ℤ) - b.toNat
  | _, _, _ => 0

/-- What a `view` leads to: its size, and the bytes at its pointer. -/
structure View where
  size : ℕ
  bytes : List UInt8
  deriving DecidableEq

namespace View

/-- `bool view::operator==( const view& rhs ) const`. -/
def eq (v rhs : View) : Bool := v.size == rhs.size && memcmp v.bytes rhs.bytes v.size == 0

/-- `bool view::operator!=( const view& rhs ) const`. -/
def ne (v rhs : View) : Bool := !(v.eq rhs)

/-- The view has the bytes its size promises. -/
def Whole (v : View) : Prop := v.bytes.length = v.size

end View

theorem memcmp_eq_zero {n : ℕ} {a b : List UInt8} (ha : a.length = n) (hb : b.length = n) :
    memcmp a b n = 0 ↔ a = b := by
  induction a generalizing b n with
  | nil =>
      obtain rfl : b = [] := List.eq_nil_of_length_eq_zero (by simp_all)
      simp [memcmp]
  | cons x a ih =>
      obtain rfl : a.length + 1 = n := ha
      obtain _ | ⟨y, b⟩ := b
      · cases hb
      have hlen : b.length = a.length := by simpa using hb
      rcases eq_or_ne x y with rfl | hxy
      · simp [memcmp, ih rfl hlen]
      · have hnat : x.toNat ≠ y.toNat := fun h => hxy (UInt8.toNat_inj.mp h)
        have hdiff : (x.toNat : ℤ) - y.toNat ≠ 0 := by omega
        simp [memcmp, hxy, hdiff]

/-- Views that have their bytes compare equal exactly when they are. -/
theorem View.eq_iff {v w : View} (hv : v.Whole) (hw : w.Whole) : v.eq w = true ↔ v = w := by
  obtain ⟨s, a⟩ := v
  obtain ⟨t, b⟩ := w
  simp only [View.eq, Bool.and_eq_true, beq_iff_eq, View.mk.injEq]
  refine and_congr_right fun hs => ?_
  subst hs
  exact memcmp_eq_zero hv hw

theorem View.ne_iff {v w : View} (hv : v.Whole) (hw : w.Whole) : v.ne w = true ↔ v ≠ w := by
  rw [View.ne, Bool.not_eq_true', ← Bool.not_eq_true, View.eq_iff hv hw]

variable {O B : Type}

/-- What a buffer shows. -/
def Memory.view (m : Memory O B) (o : O) : View :=
  ⟨(m.fields o).s, ((m.fields o).d.bind m.heap).getD []⟩

section Whole

variable {m : Memory O B}

/-- A buffer's bytes are as many as its size, also when it has none. -/
theorem Balanced.view_whole (hm : Balanced m) (o : O) : (m.view o).Whole := by
  cases hb : m.obj o with
  | none => simp [View.Whole, Memory.view, Memory.fields, hb]
  | some b =>
      obtain rfl | ⟨d, bytes, hd, hbytes, hs⟩ := hm.null_or_live o b hb
      · simp [View.Whole, Memory.view, Memory.fields, hb]
      · simpa [View.Whole, Memory.view, fields_of_some hb, hd, hbytes] using hs

theorem Balanced.view_empty (hm : Balanced m) {o : O} (hs : (m.fields o).s = 0) :
    m.view o = ⟨0, []⟩ := by
  have hwhole : (m.view o).bytes.length = (m.fields o).s := hm.view_whole o
  have hnil : (m.view o).bytes = [] := List.eq_nil_of_length_eq_zero (by omega)
  exact congrArg₂ View.mk hs hnil

end Whole

/-! ### Writing through a buffer -/

/-- `buf.data<unsigned char>()[i] = x;`. -/
def Memory.write [DecidableEq B] (m : Memory O B) (this : O) (i : ℕ) (x : UInt8) : Memory O B :=
  match (m.fields this).d with
  | none => m
  | some d =>
      match m.heap d with
      | none => m
      | some bytes => { m with heap := update m.heap d (some (bytes.set i x)) }

/-- What a program does with its buffers: an operation, or a byte written. -/
inductive Act (O B : Type)
  | op (o : Op O B)
  | write (this : O) (i : ℕ) (x : UInt8)

/-- The objects an operation works on. -/
def Op.targets : Op O B → List O
  | .default this | .sized this _ _ | .adopt this _ _ => [this]
  | .copyCtor this _ _ | .copyAssign this _ _ => [this]
  | .moveCtor this rhs | .moveAssign this rhs => [this, rhs]
  | .destroy this | .release this => [this]
  | .recv this _ _ | .getOptString _ this _ | .send this _ _ => [this]
  | .handOut _ _ | .freeOwn _ _ => []

namespace Act

variable [DecidableEq O] [DecidableEq B]

def targets : Act O B → List O
  | .op o => o.targets
  | .write this _ _ => [this]

/-- A program writes inside the bounds of an existing buffer. -/
def Enabled (m : Memory O B) : Act O B → Prop
  | .op o => Buffer.Enabled m o
  | .write this i _ => m.obj this ≠ none ∧ i < (m.fields this).s

def exec (alloc : AllocFlag) (m : Memory O B) : Act O B → Memory O B
  | .op o => Buffer.exec alloc m o
  | .write this i x => m.write this i x

def Step (alloc : AllocFlag) (m : Memory O B) (a : Act O B) (m' : Memory O B) : Prop :=
  Enabled m a ∧ m' = exec alloc m a

end Act

theorem Balanced.write_byte [DecidableEq B] {m : Memory O B} (hm : Balanced m) (this : O) (i : ℕ)
    (x : UInt8) : Balanced (m.write this i x) := by
  cases hd : (m.fields this).d with
  | none => simpa [Memory.write, hd] using hm
  | some d =>
      cases hbytes : m.heap d with
      | none => simpa [Memory.write, hd, hbytes] using hm
      | some bytes =>
          simp only [Memory.write, hd, hbytes]
          exact hm.write hbytes (by simp)

theorem balanced_act [DecidableEq O] [DecidableEq B] (alloc : AllocFlag) {m : Memory O B}
    (hm : Balanced m) (a : Act O B) (ha : a.Enabled m) : Balanced (a.exec alloc m) := by
  cases a with
  | op o => exact balanced_step alloc hm o ha
  | write this i x => exact hm.write_byte this i x

/-! ### The frame -/

/-- A buffer is left alone: it is as it was, and so is what its pointer leads to. -/
structure Keeps (m m' : Memory O B) (o : O) : Prop where
  obj : m'.obj o = m.obj o
  block : ∀ d, (m.fields o).d = some d → m'.heap d = m.heap d

namespace Keeps

variable {m m' m'' : Memory O B} {o : O}

theorem refl (m : Memory O B) (o : O) : Keeps m m o := ⟨rfl, fun _ _ => rfl⟩

theorem fields (h : Keeps m m' o) : m'.fields o = m.fields o := by
  rw [Memory.fields, Memory.fields, h.obj]

theorem trans (h : Keeps m m' o) (h' : Keeps m' m'' o) : Keeps m m'' o := by
  refine ⟨h'.obj.trans h.obj, ?_⟩
  intro d hd
  rw [h'.block d (by rwa [h.fields]), h.block d hd]

theorem view (h : Keeps m m' o) : m'.view o = m.view o := by
  have hfields := h.fields
  cases hd : (m.fields o).d with
  | none => simp [Memory.view, hfields, hd]
  | some d => simp [Memory.view, hfields, hd, h.block d hd]

end Keeps

section Primitives

variable {m : Memory O B} {q : O}

/-- No two buffers have one block. -/
theorem Balanced.apart (hm : Balanced m) {this : O} (hne : q ≠ this) {d : B}
    (hd : (m.fields this).d = some d) : (m.fields q).d ≠ some d :=
  fun hq => hne (hm.exclusive q this d hq hd)

/-- No buffer has a block that is not live. -/
theorem Balanced.apart_fresh (hm : Balanced m) {d : B} (hd : m.heap d = none) :
    (m.fields q).d ≠ some d := by
  intro hq
  obtain ⟨s, hs⟩ := held_of_d hq
  obtain hnull | ⟨e, bytes, he, hbytes, -⟩ := hm.null_or_live q _ (held_eq_some.mp hs)
  · cases hnull
  · obtain rfl : d = e := Option.some.inj he
    rw [hd] at hbytes
    cases hbytes

/-- The caller's books are not in any buffer. -/
theorem keeps_part [DecidableEq B] (b : Buffer B) : Keeps m (m.part b) q := by
  obtain ⟨_ | d, s⟩ := b <;> exact ⟨rfl, fun _ _ => rfl⟩

theorem keeps_keep [DecidableEq B] (b : Buffer B) : Keeps m (m.keep b) q := by
  obtain ⟨_ | d, s⟩ := b <;> exact ⟨rfl, fun _ _ => rfl⟩

theorem keeps_obj [DecidableEq O] {this : O} (hne : q ≠ this) (x : Option (Buffer B)) :
    Keeps m { m with obj := update m.obj this x } q :=
  ⟨update_of_ne hne x m.obj, fun _ _ => rfl⟩

variable [DecidableEq B]

theorem keeps_heap {d : B} (hd : (m.fields q).d ≠ some d) (x : Option (List UInt8)) :
    Keeps m { m with heap := update m.heap d x } q := by
  refine ⟨rfl, ?_⟩
  intro e he
  have hne : e ≠ d := by rintro rfl; exact hd he
  exact update_of_ne hne x m.heap

theorem keeps_nngFree {d : B} (hd : (m.fields q).d ≠ some d) (s : ℕ) :
    Keeps m (m.nngFree d s) q := by
  unfold Memory.nngFree
  split
  · exact keeps_heap hd none
  · exact ⟨rfl, fun _ _ => rfl⟩

theorem keeps_freeIf {b : Buffer B} (hb : ∀ d, b.d = some d → (m.fields q).d ≠ some d) :
    Keeps m (m.freeIf b) q := by
  obtain ⟨_ | d, s⟩ := b
  · exact Keeps.refl m q
  · exact keeps_nngFree (hb d rfl) s

theorem keeps_memcpy {d : B} (hd : (m.fields q).d ≠ some d) (src : Option B) (n : ℕ) :
    Keeps m (m.memcpy (some d) src n) q := by
  unfold Memory.memcpy
  split
  · exact Keeps.refl m q
  cases src with
  | none => exact ⟨rfl, fun _ _ => rfl⟩
  | some src =>
      dsimp only
      split
      · split
        · exact keeps_heap hd _
        · exact ⟨rfl, fun _ _ => rfl⟩
      · exact ⟨rfl, fun _ _ => rfl⟩

variable [DecidableEq O]

theorem keeps_withBlock {this : O} (hne : q ≠ this) {d : B} (hd : (m.fields q).d ≠ some d)
    (bytes : List UInt8) (s : ℕ) : Keeps m (m.withBlock this d bytes s) q :=
  (keeps_heap hd _).trans (keeps_obj hne _)

/-- Freeing the block of one buffer leaves the others alone. -/
theorem Balanced.keeps_give_back (hm : Balanced m) {this : O} (hne : q ≠ this)
    (x : Option (Buffer B)) :
    Keeps m { m.freeIf (m.fields this) with obj := update m.obj this x } q := by
  have hfree : Keeps m (m.freeIf (m.fields this)) q := keeps_freeIf fun d hd => hm.apart hne hd
  have hobj : Keeps (m.freeIf (m.fields this))
      { m.freeIf (m.fields this) with obj := update (m.freeIf (m.fields this)).obj this x } q :=
    keeps_obj hne x
  rw [Memory.obj_freeIf] at hobj
  exact hfree.trans hobj

/-- A fresh block, and bytes copied there, leave the others alone. -/
theorem Balanced.keeps_copy (hm : Balanced m) {this : O} (hne : q ≠ this) {d : B}
    (hd : m.heap d = none) (bytes : List UInt8) (src : Option B) (s n : ℕ) :
    Keeps m ((m.withBlock this d bytes s).memcpy (some d) src n) q := by
  have hblock := keeps_withBlock hne (hm.apart_fresh (q := q) hd) bytes s
  refine hblock.trans (keeps_memcpy ?_ src n)
  rw [hblock.fields]
  exact hm.apart_fresh hd

end Primitives

section Frame

variable [DecidableEq O] [DecidableEq B] {m : Memory O B} {q : O}

theorem keeps_copyAssign (hm : Balanced m) {this rhs : O} (hne : q ≠ this)
    {ans : Option (B × List UInt8)} (hthis : m.obj this ≠ none)
    (hans : Allocates (m.freeIf (m.fields this)) (m.fields rhs).s ans) :
    Keeps m (leaves (copyAssign this rhs ans) m) q := by
  rcases eq_or_ne this rhs with rfl | hdiff
  · rw [leaves_of_ok (run_copyAssign_self m this ans)]
    exact Keeps.refl m q
  rcases eq_or_ne (m.fields this).s (m.fields rhs).s with hs | hs
  · rw [leaves_of_ok (run_copyAssign_same m hdiff hs ans)]
    cases hd : (m.fields this).d with
    | none =>
        -- a buffer without a block has size zero, and nothing is copied
        obtain ⟨⟨d, s⟩, hb⟩ := Option.ne_none_iff_exists'.mp hthis
        obtain rfl : d = none := by simpa [fields_of_some hb] using hd
        have hzero : (m.fields this).s = 0 := by
          rw [fields_of_some hb]
          exact (balanced_iff.mp hm).2.1 this s hb
        simpa [Memory.memcpy, hzero] using Keeps.refl m q
    | some d => exact keeps_memcpy (hm.apart hne hd) _ _
  cases ans with
  | none =>
      rw [leaves_of_error (run_copyAssign_none m hdiff hs)]
      exact hm.keeps_give_back hne _
  | some ans =>
      obtain ⟨d, bytes⟩ := ans
      rw [leaves_of_ok (run_copyAssign_some m hdiff hs d bytes)]
      -- the block may be the one that was just freed: it is in no other buffer either way
      have hfreed := (hm.give_back this (.inr rfl)).keeps_copy hne (hans d bytes rfl).1 bytes
        (m.fields rhs).d (m.fields rhs).s (m.fields rhs).s
      have hback := (hm.keeps_give_back hne (some ⟨none, 0⟩)).trans hfreed
      simpa [Memory.withBlock, Memory.obj_freeIf] using hback

/-- An operation leaves alone every buffer it does not work on. -/
theorem keeps_step (alloc : AllocFlag) (hm : Balanced m) (a : Act O B) (ha : a.Enabled m)
    (hq : q ∉ a.targets) : Keeps m (a.exec alloc m) q := by
  cases a with
  | write this i x =>
      have hne : q ≠ this := by simpa [Act.targets] using hq
      show Keeps m (m.write this i x) q
      cases hd : (m.fields this).d with
      | none => simpa [Memory.write, hd] using Keeps.refl m q
      | some d =>
          cases hbytes : m.heap d with
          | none => simpa [Memory.write, hd, hbytes] using Keeps.refl m q
          | some bytes =>
              simp only [Memory.write, hd, hbytes]
              exact keeps_heap (hm.apart hne hd) _
  | op o =>
      show Keeps m (leaves (o.call alloc) m) q
      cases o with
      | default this => exact keeps_obj (by simpa [Act.targets, Op.targets] using hq) _
      | sized this sz ans =>
          have hne : q ≠ this := by simpa [Act.targets, Op.targets] using hq
          cases ans with
          | none =>
              rw [Op.call, leaves_of_error (run_sized_none m ha.1 sz)]
              exact Keeps.refl m q
          | some ans =>
              obtain ⟨d, bytes⟩ := ans
              rw [Op.call, leaves_of_ok (run_sized_some m this sz d bytes)]
              exact keeps_withBlock hne (hm.apart_fresh (ha.2 d bytes rfl).1) bytes sz
      | adopt this d s =>
          exact (keeps_part ⟨d, s⟩).trans
            (keeps_obj (by simpa [Act.targets, Op.targets] using hq) _)
      | copyCtor this rhs ans =>
          have hne : q ≠ this := by simpa [Act.targets, Op.targets] using hq
          have hdiff : this ≠ rhs := by rintro rfl; exact ha.2.1 ha.1
          cases ans with
          | none =>
              rw [Op.call, leaves_of_error (run_copyCtor_none m ha.1 rhs)]
              exact Keeps.refl m q
          | some ans =>
              obtain ⟨d, bytes⟩ := ans
              rw [Op.call, leaves_of_ok (run_copyCtor_some m hdiff d bytes)]
              exact hm.keeps_copy hne (ha.2.2 d bytes rfl).1 bytes _ _ _
      | copyAssign this rhs ans =>
          exact keeps_copyAssign hm (by simpa [Act.targets, Op.targets] using hq) ha.1 ha.2.2
      | moveCtor this rhs =>
          have hne : q ≠ this ∧ q ≠ rhs := by simpa [Act.targets, Op.targets] using hq
          exact (keeps_obj hne.1 _).trans (keeps_obj hne.2 _)
      | moveAssign this rhs =>
          have hne : q ≠ this ∧ q ≠ rhs := by simpa [Act.targets, Op.targets] using hq
          show Keeps m (m.moveAssign this rhs) q
          unfold Memory.moveAssign
          split
          · exact (keeps_freeIf fun d hd => hm.apart hne.1 hd).trans
              ((keeps_obj hne.1 _).trans (keeps_obj hne.2 _))
          · exact Keeps.refl m q
      | destroy this =>
          have hne : q ≠ this := by simpa [Act.targets, Op.targets] using hq
          exact (keeps_freeIf fun d hd => hm.apart hne hd).trans (keeps_obj hne _)
      | release this =>
          exact (keeps_obj (by simpa [Act.targets, Op.targets] using hq) _).trans (keeps_keep _)
      | recv this flags ans =>
          have hne : q ≠ this := by simpa [Act.targets, Op.targets] using hq
          cases ans with
          | error e =>
              rw [Op.call, leaves_recv_error]
              exact Keeps.refl m q
          | ok ans =>
              obtain ⟨d, bytes⟩ := ans
              rw [Op.call, leaves_recv_ok]
              exact keeps_withBlock hne (hm.apart_fresh (ha.2 d bytes rfl)) _ _
      | getOptString source this ans =>
          have hne : q ≠ this := by simpa [Act.targets, Op.targets] using hq
          cases ans with
          | error e =>
              rw [Op.call, leaves_getOptString_error]
              exact Keeps.refl m q
          | ok ans =>
              obtain ⟨d, str⟩ := ans
              rw [Op.call, leaves_getOptString_ok]
              exact keeps_withBlock hne (hm.apart_fresh (ha.2 d str rfl)) _ _
      | send this flags r =>
          have hne : q ≠ this := by simpa [Act.targets, Op.targets] using hq
          rcases eq_or_ne r .success with rfl | hr
          · rw [Op.call, leaves_of_ok (run_send_success m alloc this flags)]
            exact hm.keeps_give_back hne _
          · rw [Op.call, leaves_of_error (run_send_failure m alloc this flags hr)]
            exact Keeps.refl m q
      | handOut d bytes =>
          show Keeps m
            ({ m with heap := update m.heap d (some bytes) }.keep ⟨some d, bytes.length⟩) q
          exact (keeps_heap (hm.apart_fresh ha) _).trans (keeps_keep _)
      | freeOwn d s =>
          have hown : (m.fields q).d ≠ some d := (hm.own_apart d s ha).2 q
          show Keeps m ((m.nngFree d s).part ⟨some d, s⟩) q
          exact (keeps_nngFree hown s).trans (keeps_part _)

/-- As long as nothing works on a buffer, it shows what it showed. -/
theorem view_run (alloc : AllocFlag) (hm : Balanced m)
    {tr : List (Transition (Memory O B) (Act O B))} {m' : Memory O B}
    (run : Run (Act.Step alloc) m tr m') (hq : ∀ e ∈ tr, q ∉ e.label.targets) :
    m'.view q = m.view q := by
  have hboth : Balanced m' ∧ m'.view q = m.view q := by
    refine run.guarded (I := fun t => Balanced t ∧ t.view q = m.view q) ?_ ?_ hq
    · exact ⟨hm, rfl⟩
    · rintro t a _ ⟨ht, hview⟩ ⟨ha, rfl⟩ hqa
      exact ⟨balanced_act alloc ht a ha, (keeps_step alloc ht a ha hqa).view.trans hview⟩
  exact hboth.2

end Frame

end Nngpp.Buffer
