import Nngpp.Buffer.Views

/-!
Copies of buffers.

A copy is made by the constructor, which always allocates, or by the assignment,
which allocates unless the two buffers are one or have the same size. Both read a
null answer of `nng_alloc` as exhaustion, and for an empty source that is a
mistake: `nng_alloc(0)` may be null with plenty of memory left, and then the copy
throws although there was nothing to copy. `copies_faithful_iff` says that this
is the only way a copy goes wrong. Everything else that is expected of a copy,
that it is equal, independent and the same by either path of the assignment,
holds in every state a program can reach.
-/

namespace Nngpp.Buffer

open Function Lib

variable {O B : Type}

/-! ### The two ways to copy -/

/-- `buffer this(rhs);` and `this = rhs;`. -/
inductive Copy (O : Type)
  | ctor (this rhs : O)
  | assign (this rhs : O)

namespace Copy

def this : Copy O → O
  | ctor this _ | assign this _ => this

def rhs : Copy O → O
  | ctor _ rhs | assign _ rhs => rhs

variable [DecidableEq O] [DecidableEq B]

def op (c : Copy O) (ans : Option (B × List UInt8)) : Op O B :=
  match c with
  | ctor this rhs => .copyCtor this rhs ans
  | assign this rhs => .copyAssign this rhs ans

def call (c : Copy O) (ans : Option (B × List UInt8)) : Call O B Unit :=
  match c with
  | ctor this rhs => copyCtor this rhs ans
  | assign this rhs => copyAssign this rhs ans

/-- The copy asks `nng_alloc` for a block. -/
def Allocating (m : Memory O B) : Copy O → Prop
  | ctor _ _ => True
  | assign this rhs => this ≠ rhs ∧ (m.fields this).s ≠ (m.fields rhs).s

/-- The copy may be made, and nng has memory for it: `nng_alloc` answers null at
most when it is asked for no bytes at all. -/
def Allowed (m : Memory O B) (c : Copy O) (ans : Option (B × List UInt8)) : Prop :=
  Enabled m (c.op ans) ∧ ((m.fields c.rhs).s ≠ 0 → ans ≠ none)

/-- The copy of an empty buffer asks for a block of no bytes and gets null. -/
def Starved (m : Memory O B) (c : Copy O) (ans : Option (B × List UInt8)) : Prop :=
  (m.fields c.rhs).s = 0 ∧ c.Allocating m ∧ ans = none

end Copy

/-- What `this` shows in `m'` is what `rhs` showed in `m`, and no comparison with
a third buffer can tell the difference. -/
structure Respected (m m' : Memory O B) (this rhs : O) : Prop where
  equal : (m'.view this).eq (m.view rhs) = true
  compare : ∀ o, o ≠ this → o ≠ rhs → (m'.view o).eq (m'.view this) = (m.view o).eq (m.view rhs)

/-- A copy of `rhs` as it should be. -/
structure Copied [DecidableEq O] [DecidableEq B] (alloc : AllocFlag) (m m' : Memory O B)
    (this rhs : O) : Prop extends Respected m m' this rhs where
  /-- The source and all other buffers are unchanged. -/
  unchanged : ∀ o, o ≠ this ∨ o = rhs → m'.obj o = m.obj o ∧ m'.view o = m.view o
  /-- The copy compares equal to its source. -/
  same : (m'.view this).eq (m'.view rhs) = true ∧ (m'.view this).ne (m'.view rhs) = false
  /-- Whatever a program does later, a buffer it does not work on shows nothing of it. -/
  independent : ∀ {tr m''}, Run (Act.Step alloc) m' tr m'' → ∀ o,
    (∀ e ∈ tr, o ∉ e.label.targets) → m''.view o = m'.view o

/-- The copy does not throw, and makes what it should. -/
def Copy.Faithful [DecidableEq O] [DecidableEq B] (alloc : AllocFlag) (m : Memory O B) (c : Copy O)
    (ans : Option (B × List UInt8)) : Prop :=
  ∃ m', (c.call ans).run m = .ok () m' ∧ Copied alloc m m' c.this c.rhs

/-! ### What a copy shows -/

section Shown

variable [DecidableEq O] [DecidableEq B] {m : Memory O B} {this rhs : O}

omit [DecidableEq O] in
/-- After `memcpy` between two buffers of one size, both show the same. -/
theorem view_memcpy (hm : Balanced m) {d src : Option B} {n : ℕ} (hne : this ≠ rhs)
    (hthis : m.obj this = some ⟨d, n⟩) (hrhs : m.obj rhs = some ⟨src, n⟩) :
    (m.memcpy d src n).view this = m.view rhs := by
  have hfields := fields_of_some hthis
  have hfields' := fields_of_some hrhs
  obtain ⟨rfl, h⟩ | ⟨b, c, old, bytes, rfl, rfl, -, -, hbytes, -, -, h⟩ :=
    hm.memcpy_cases hne hthis hrhs
  · have hs : (m.fields this).s = 0 := by rw [hfields]
    have hs' : (m.fields rhs).s = 0 := by rw [hfields']
    rw [h, hm.view_empty hs, hm.view_empty hs']
  · have hthis' : Memory.fields { m with heap := update m.heap b (some bytes) } this =
        m.fields this := rfl
    simp [h, Memory.view, hthis', hfields, hfields', hbytes]

theorem view_copyCtor (hm : Balanced m) (hthis : m.obj this = none) (hrhs : m.obj rhs ≠ none)
    {d : B} {bytes : List UInt8} (hans : Allocates m (m.fields rhs).s (some (d, bytes))) :
    ∃ m', (copyCtor this rhs (some (d, bytes))).run m = .ok () m' ∧
      m'.view this = m.view rhs := by
  obtain ⟨hd, hbytes⟩ := hans d bytes rfl
  have hne : this ≠ rhs := by rintro rfl; exact hrhs hthis
  obtain ⟨b, hb⟩ := Option.ne_none_iff_exists'.mp hrhs
  refine ⟨_, run_copyCtor_some m hne d bytes, ?_⟩
  have hblock := hm.withBlock (held_of_obj_none hthis) hd hbytes
  have hkept : Keeps m (m.withBlock this d bytes (m.fields rhs).s) rhs :=
    keeps_withBlock (Ne.symm hne) (hm.apart_fresh hd) bytes _
  rw [view_memcpy hblock hne (by simp [Memory.withBlock]) ?_, hkept.view]
  rw [hkept.obj, hb, fields_of_some hb]

theorem view_copyAssign_same (hm : Balanced m) (hthis : m.obj this ≠ none)
    (hrhs : m.obj rhs ≠ none) (hne : this ≠ rhs) (hs : (m.fields this).s = (m.fields rhs).s)
    (ans : Option (B × List UInt8)) :
    ∃ m', (copyAssign this rhs ans).run m = .ok () m' ∧ m'.view this = m.view rhs := by
  obtain ⟨b, hb⟩ := Option.ne_none_iff_exists'.mp hthis
  obtain ⟨c, hc⟩ := Option.ne_none_iff_exists'.mp hrhs
  refine ⟨_, run_copyAssign_same m hne hs ans, ?_⟩
  apply view_memcpy hm hne
  · rw [fields_of_some hb, hb]
  · rw [hs, fields_of_some hc, hc]

theorem view_copyAssign_fresh (hm : Balanced m) (hrhs : m.obj rhs ≠ none) (hne : this ≠ rhs)
    (hs : (m.fields this).s ≠ (m.fields rhs).s) {d : B} {bytes : List UInt8}
    (hans : Allocates (m.freeIf (m.fields this)) (m.fields rhs).s (some (d, bytes))) :
    ∃ m', (copyAssign this rhs (some (d, bytes))).run m = .ok () m' ∧
      m'.view this = m.view rhs := by
  obtain ⟨hd, hbytes⟩ := hans d bytes rfl
  refine ⟨_, run_copyAssign_some m hne hs d bytes, ?_⟩
  -- the destination has freed its block and holds nothing when it gets the new one
  have hfreed := hm.give_back this (.inr rfl)
  have hblock : Balanced (Memory.withBlock { m.freeIf (m.fields this) with
      obj := update m.obj this (some ⟨none, 0⟩) } this d bytes (m.fields rhs).s) :=
    hfreed.withBlock (by simp) hd hbytes
  have hkept : Keeps m _ rhs := (hm.keeps_give_back (Ne.symm hne) (some ⟨none, 0⟩)).trans
    (keeps_withBlock (Ne.symm hne) (hfreed.apart_fresh hd) bytes (m.fields rhs).s)
  have hsame : Memory.withBlock { m.freeIf (m.fields this) with
      obj := update m.obj this (some ⟨none, 0⟩) } this d bytes (m.fields rhs).s =
      (m.freeIf (m.fields this)).withBlock this d bytes (m.fields rhs).s := by
    simp [Memory.withBlock, Memory.obj_freeIf]
  rw [hsame] at hblock hkept
  obtain ⟨b, hb⟩ := Option.ne_none_iff_exists'.mp hrhs
  rw [view_memcpy hblock hne (by simp [Memory.withBlock]) ?_, hkept.view]
  rw [hkept.obj, hb, fields_of_some hb]

end Shown

/-! ### When a copy is faithful -/

section Faithful

variable [DecidableEq O] [DecidableEq B] {m : Memory O B}

/-- A copy that is not starved returns, and shows what its source shows. -/
theorem Copy.view_of_not_starved (hm : Balanced m) (c : Copy O) {ans : Option (B × List UInt8)}
    (hc : c.Allowed m ans) (hserved : ¬ c.Starved m ans) :
    ∃ m', (c.call ans).run m = .ok () m' ∧ m'.view c.this = m.view c.rhs := by
  obtain ⟨henabled, hmemory⟩ := hc
  -- a block was asked for and not given only when none was needed
  have hgiven : c.Allocating m → ans ≠ none := by
    rintro hasks rfl
    rcases Nat.eq_zero_or_pos (m.fields c.rhs).s with hzero | hpos
    · exact hserved ⟨hzero, hasks, rfl⟩
    · exact hmemory (by omega) rfl
  cases c with
  | ctor this rhs =>
      obtain ⟨hthis, hrhs, hans⟩ := henabled
      obtain ⟨⟨d, bytes⟩, rfl⟩ := Option.ne_none_iff_exists'.mp (hgiven trivial)
      exact view_copyCtor hm hthis hrhs hans
  | assign this rhs =>
      obtain ⟨hthis, hrhs, hans⟩ := henabled
      rcases eq_or_ne this rhs with rfl | hne
      · exact ⟨m, run_copyAssign_self m this ans, rfl⟩
      rcases eq_or_ne (m.fields this).s (m.fields rhs).s with hs | hs
      · exact view_copyAssign_same hm hthis hrhs hne hs ans
      · obtain ⟨⟨d, bytes⟩, rfl⟩ := Option.ne_none_iff_exists'.mp (hgiven ⟨hne, hs⟩)
        exact view_copyAssign_fresh hm hrhs hne hs hans

/-- A starved copy throws. -/
theorem Copy.throws_of_starved {c : Copy O} {ans : Option (B × List UInt8)}
    (hc : c.Allowed m ans) (hstarved : c.Starved m ans) :
    ∃ m', (c.call ans).run m = .error ⟨.nomem, "nng_alloc"⟩ m' := by
  obtain ⟨-, hasks, rfl⟩ := hstarved
  cases c with
  | ctor this rhs => exact ⟨m, run_copyCtor_none m hc.1.1 rhs⟩
  | assign this rhs => exact ⟨_, run_copyAssign_none m hasks.1 hasks.2⟩

theorem Copy.view_of_returned (hm : Balanced m) (c : Copy O) {ans : Option (B × List UInt8)}
    {m' : Memory O B} (hc : c.Allowed m ans) (hrun : (c.call ans).run m = .ok () m') :
    m'.view c.this = m.view c.rhs := by
  have hserved : ¬ c.Starved m ans := by
    intro hstarved
    obtain ⟨m'', hthrow⟩ := Copy.throws_of_starved hc hstarved
    rw [hrun] at hthrow
    cases hthrow
  obtain ⟨m'', hrun', hview⟩ := c.view_of_not_starved hm hc hserved
  obtain rfl : m' = m'' := (EStateM.Result.ok.inj (hrun.symm.trans hrun')).2
  exact hview

/-- What a copy that returned leaves of the buffers. -/
theorem Copy.copied (alloc : AllocFlag) (hm : Balanced m) (c : Copy O)
    {ans : Option (B × List UInt8)} {m' : Memory O B} (hc : Enabled m (c.op ans))
    (hrun : (c.call ans).run m = .ok () m') (hview : m'.view c.this = m.view c.rhs) :
    Copied alloc m m' c.this c.rhs := by
  have hexec : (Act.op (c.op ans)).exec alloc m = m' := by
    cases c <;> exact leaves_of_ok hrun
  have hm' : Balanced m' := hexec ▸ balanced_act alloc hm (.op (c.op ans)) hc
  have hkeeps : ∀ o, o ≠ c.this → Keeps m m' o := by
    intro o ho
    rw [← hexec]
    apply keeps_step alloc hm (.op (c.op ans)) hc
    cases c <;> simpa [Act.targets, Op.targets, Copy.op, Copy.this] using ho
  have hunchanged : ∀ o, o ≠ c.this ∨ o = c.rhs → m'.obj o = m.obj o ∧ m'.view o = m.view o := by
    rintro o ho
    rcases eq_or_ne o c.this with rfl | hne
    · obtain hself | hself := ho
      · exact absurd rfl hself
      -- the destination is the source: nothing happened at all
      cases c with
      | ctor this rhs =>
          obtain rfl : this = rhs := hself
          exact absurd hc.1 hc.2.1
      | assign this rhs =>
          obtain rfl : this = rhs := hself
          obtain rfl : m = m' := by
            have hsame := (run_copyAssign_self m this ans).symm.trans hrun
            exact (EStateM.Result.ok.inj hsame).2
          exact ⟨rfl, rfl⟩
    · exact ⟨(hkeeps o hne).obj, (hkeeps o hne).view⟩
  have hequal : (m'.view c.this).eq (m.view c.rhs) = true :=
    (View.eq_iff (hm'.view_whole _) (hm.view_whole _)).mpr hview
  have hsame : (m'.view c.this).eq (m'.view c.rhs) = true := by
    rwa [(hunchanged c.rhs (.inr rfl)).2]
  refine ⟨⟨hequal, ?_⟩, hunchanged, ⟨hsame, by simp [View.ne, hsame]⟩, ?_⟩
  · intro o hne _
    rw [hview, (hkeeps o hne).view]
  · intro tr m'' run o ho
    exact view_run alloc hm' run ho

theorem Copy.faithful_iff (alloc : AllocFlag) (hm : Balanced m) (c : Copy O)
    {ans : Option (B × List UInt8)} (hc : c.Allowed m ans) :
    c.Faithful alloc m ans ↔ ¬ c.Starved m ans := by
  constructor
  · rintro ⟨m', hrun, -⟩ hstarved
    obtain ⟨m'', hthrow⟩ := Copy.throws_of_starved hc hstarved
    rw [hrun] at hthrow
    cases hthrow
  · intro hserved
    obtain ⟨m', hrun, hview⟩ := c.view_of_not_starved hm hc hserved
    exact ⟨m', hrun, c.copied alloc hm hc.1 hrun hview⟩

end Faithful

/-! ### Comparison -/

section Comparison

variable {m : Memory O B}

theorem view_moved [DecidableEq O] {this rhs : O} (hne : this ≠ rhs) :
    Memory.view { m with
      obj := update (update m.obj this (some (m.fields rhs))) rhs (some ⟨none, 0⟩) } this =
      m.view rhs := by
  simp [Memory.view, Memory.fields, hne]

/-- `operator==` on the buffers of a memory. -/
def Memory.Equal (m : Memory O B) (a b : O) : Prop := (m.view a).eq (m.view b) = true

theorem Balanced.equal_iff (hm : Balanced m) (a b : O) : m.Equal a b ↔ m.view a = m.view b :=
  View.eq_iff (hm.view_whole a) (hm.view_whole b)

theorem Balanced.equivalence (hm : Balanced m) : Equivalence m.Equal := by
  refine ⟨?_, ?_, ?_⟩
  · intro a
    exact (hm.equal_iff a a).mpr rfl
  · intro a b hab
    exact (hm.equal_iff b a).mpr ((hm.equal_iff a b).mp hab).symm
  · intro a b c hab hbc
    exact (hm.equal_iff a c).mpr (((hm.equal_iff a b).mp hab).trans ((hm.equal_iff b c).mp hbc))

variable [DecidableEq O] [DecidableEq B]

/-- The two ways to move. -/
def moves (this rhs : O) : List (Op O B) := [.moveCtor this rhs, .moveAssign this rhs]

/-- What has been moved shows at its new place what it showed at the old one. -/
theorem respected_move (alloc : AllocFlag) (hm : Balanced m) {this rhs : O} (hne : this ≠ rhs)
    {o : Op O B} (ho : o ∈ moves this rhs) (henabled : Enabled m o) :
    Respected m (exec alloc m o) this rhs := by
  have hm' := balanced_step alloc hm o henabled
  have hcases : o = .moveCtor this rhs ∨ o = .moveAssign this rhs := by simpa [moves] using ho
  have hview : (exec alloc m o).view this = m.view rhs := by
    obtain rfl | rfl := hcases
    · exact view_moved hne
    · have hkept : Keeps m (m.freeIf (m.fields this)) rhs :=
        keeps_freeIf fun d hd => hm.apart (Ne.symm hne) hd
      show (m.moveAssign this rhs).view this = m.view rhs
      rw [Memory.moveAssign, if_pos hne, view_moved hne, hkept.view]
  refine ⟨(View.eq_iff (hm'.view_whole _) (hm.view_whole _)).mpr hview, ?_⟩
  intro q hthis hrhs
  have hq : q ∉ (Act.op o).targets := by
    obtain rfl | rfl := hcases
    all_goals simp [Act.targets, Op.targets, hthis, hrhs]
  have hkeep : ((Act.op o).exec alloc m).view q = m.view q :=
    (keeps_step alloc hm (.op o) henabled hq).view
  rw [hview, ← hkeep]
  rfl

end Comparison

/-! ### The reachable states -/

variable [DecidableEq O] [DecidableEq B]

/-- What a program can reach with its buffers, writing through them too. -/
def Reachable (alloc : AllocFlag) (m : Memory O B) : Prop :=
  ∃ heap tr, Run (Act.Step alloc) (Memory.init heap) tr m

theorem Reachable.balanced {alloc : AllocFlag} {m : Memory O B} (hm : Reachable alloc m) :
    Balanced m := by
  obtain ⟨heap, tr, run⟩ := hm
  refine run.invariant (balanced_init heap) ?_
  rintro m a _ hm ⟨ha, rfl⟩
  exact balanced_act alloc hm a ha

/-- The assignment makes the same bytes of equal sources, whether it reuses the
block it has (in `m`) or frees it and allocates (in `n`). -/
def PathsAgree (m n : Memory O B) : Prop :=
  ∀ {this rhs ans m' this' rhs' ans' n'}, (Copy.assign this rhs).Allowed m ans →
    (copyAssign this rhs ans).run m = .ok () m' → (m.fields this).s = (m.fields rhs).s →
    (Copy.assign this' rhs').Allowed n ans' → (copyAssign this' rhs' ans').run n = .ok () n' →
    (n.fields this').s ≠ (n.fields rhs').s → (m.view rhs).eq (n.view rhs') = true →
    (m'.view this).bytes = (n'.view this').bytes

theorem pathsAgree {m n : Memory O B} (hm : Balanced m) (hn : Balanced n) : PathsAgree m n := by
  intro this rhs ans m' this' rhs' ans' n' hc hrun _ hc' hrun' _ hequal
  have hview : m'.view this = m.view rhs :=
    (Copy.assign this rhs).view_of_returned hm hc hrun
  have hview' : n'.view this' = n.view rhs' :=
    (Copy.assign this' rhs').view_of_returned hn hc' hrun'
  have hsource := (View.eq_iff (hm.view_whole rhs) (hn.view_whole rhs')).mp hequal
  rw [hview, hview', hsource]

/-- In every reachable state, a copy is faithful exactly when it is not the copy
of an empty buffer that asks nng for a block of no bytes and gets null. The rest
holds without condition: comparison is an equivalence which moves respect too,
and the two paths of the assignment agree. -/
theorem copies_faithful_iff (alloc : AllocFlag) {m : Memory O B} (hm : Reachable alloc m) :
    (∀ (c : Copy O) (ans : Option (B × List UInt8)), c.Allowed m ans →
      (c.Faithful alloc m ans ↔ ¬ c.Starved m ans)) ∧
    Equivalence m.Equal ∧
    (∀ this rhs, this ≠ rhs → ∀ o ∈ moves this rhs, Enabled m o →
      Respected m (exec alloc m o) this rhs) ∧
    ∀ n, Reachable alloc n → PathsAgree m n := by
  have hbal := hm.balanced
  refine ⟨?_, hbal.equivalence, ?_, ?_⟩
  · intro c ans hc
    exact c.faithful_iff alloc hbal hc
  · intro this rhs hne o ho henabled
    exact respected_move alloc hbal hne ho henabled
  · intro n hn
    exact pathsAgree hbal hn.balanced

/-- A buffer of two bytes, and a default-constructed one. -/
def twoBuffers : List (Act ℕ ℕ) := [.op (.sized 0 2 (some (7, [1, 2]))), .op (.default 1)]

theorem reachable_twoBuffers :
    Reachable nngFlag (twoBuffers.foldl (Act.exec nngFlag) (Memory.init fun _ => none)) := by
  refine ⟨fun _ => none, _, Run.of_exec ?_⟩
  have allowed : Run.AllEnabled Act.Enabled (Act.exec nngFlag)
      (Memory.init fun _ => none : Memory ℕ ℕ) twoBuffers :=
    ⟨⟨rfl, by rintro d bytes ⟨⟩; exact ⟨rfl, rfl⟩⟩, rfl, trivial⟩
  exact allowed

/-- The empty buffer gets the two bytes in a block of its own. -/
theorem copies_faithful_two :
    (Copy.assign 1 0).Faithful nngFlag
      (twoBuffers.foldl (Act.exec nngFlag) (Memory.init fun _ => none)) (some (8, [0, 0])) := by
  have allowed : (Copy.assign 1 0).Allowed
      (twoBuffers.foldl (Act.exec nngFlag) (Memory.init fun _ => none)) (some (8, [0, 0])) := by
    refine ⟨⟨nofun, nofun, ?_⟩, fun _ => nofun⟩
    rintro d bytes ⟨⟩
    exact ⟨rfl, rfl⟩
  refine ((copies_faithful_iff nngFlag reachable_twoBuffers).1 _ _ allowed).mpr ?_
  rintro ⟨hzero, -, -⟩
  exact absurd hzero (by decide)

/-- The other way round, and when a third is made of the empty one, nng is asked
for no bytes. If it answers null, both copies throw. -/
theorem copies_of_empty_throw :
    let m : Memory ℕ ℕ := twoBuffers.foldl (Act.exec nngFlag) (Memory.init fun _ => none)
    Reachable nngFlag m ∧
      ((Copy.ctor 2 1).Allowed m none ∧ ¬ (Copy.ctor 2 1).Faithful nngFlag m none) ∧
      (Copy.assign 0 1).Allowed m none ∧ ¬ (Copy.assign 0 1).Faithful nngFlag m none := by
  intro m
  have hm : Balanced m := reachable_twoBuffers.balanced
  have hctor : (Copy.ctor 2 1).Allowed m none :=
    ⟨⟨rfl, nofun, nofun⟩, fun hsize => absurd rfl hsize⟩
  have hassign : (Copy.assign 0 1).Allowed m none :=
    ⟨⟨nofun, nofun, nofun⟩, fun hsize => absurd rfl hsize⟩
  refine ⟨reachable_twoBuffers, ⟨hctor, ?_⟩, hassign, ?_⟩
  · rw [Copy.faithful_iff nngFlag hm _ hctor]
    exact not_not.mpr ⟨rfl, trivial, rfl⟩
  · rw [Copy.faithful_iff nngFlag hm _ hassign]
    exact not_not.mpr ⟨rfl, ⟨by decide, by decide⟩, rfl⟩

end Nngpp.Buffer
