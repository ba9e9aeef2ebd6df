import Nngpp.Buffer.Model

/-!
The block ledger of the buffers.

`Balanced` is the claim about a state: pointer and size of every buffer agree
with the memory, and every live block is a buffer's or the caller's. It is proved
by reading the memory as a ledger whose entries are pairs of a block and a size. A
pair is live if the block is and has that size, so that a `Ledger` of the pairs
says at once that no two buffers share a block and that each knows the size of its
own (`balanced_iff`). Freeing a block strikes out one entry, a fresh block adds
one, and writing bytes into a block changes what is under its entry; the rules of
`Ledger` do the rest.
-/

namespace Nngpp.Buffer

open Function Lib

variable {O B : Type}

/-- Each buffer is null with size zero or has a live block of its size to itself,
what no buffer has is the caller's, and nothing was misused on the way. -/
structure Balanced (m : Memory O B) : Prop where
  null_or_live : ∀ o b, m.obj o = some b → b = ⟨none, 0⟩ ∨
    ∃ d bytes, b.d = some d ∧ m.heap d = some bytes ∧ bytes.length = b.s
  exclusive : ∀ o o' d, (m.fields o).d = some d → (m.fields o').d = some d → o = o'
  /-- The caller's blocks are live, of the size it knows, and in no buffer. -/
  own_apart : ∀ d s, m.own (d, s) = true →
    (∃ bytes, m.heap d = some bytes ∧ bytes.length = s) ∧ ∀ o, (m.fields o).d ≠ some d
  /-- No live block is lost. -/
  accounted : ∀ d bytes, m.heap d = some bytes →
    m.own (d, bytes.length) = true ∨ ∃ o, m.obj o = some ⟨some d, bytes.length⟩
  noMisuse : m.misuses = []

/-! ### The entries -/

/-- The entry of a buffer. -/
def entry (b : Buffer B) : Option (B × ℕ) := b.d.map fun d => (d, b.s)

/-- The entries of the buffers. -/
def held (obj : O → Option (Buffer B)) : O → Option (B × ℕ) := fun o => (obj o).bind entry

/-- The live entries, with their bytes. -/
def blocks (heap : B → Option (List UInt8)) : B × ℕ → Option (List UInt8) :=
  fun e => (heap e.1).filter fun bytes => bytes.length = e.2

@[simp] theorem entry_null (s : ℕ) : entry (⟨none, s⟩ : Buffer B) = none := rfl

@[simp] theorem entry_some (d : B) (s : ℕ) : entry ⟨some d, s⟩ = some (d, s) := rfl

@[simp] theorem held_empty : held (fun _ : O => (none : Option (Buffer B))) = fun _ => none := rfl

@[simp] theorem held_update [DecidableEq O] (obj : O → Option (Buffer B)) (o : O)
    (x : Option (Buffer B)) : held (update obj o x) = update (held obj) o (x.bind entry) := by
  funext p
  rcases eq_or_ne p o with rfl | hp
  · simp [held]
  · simp [held, hp]

theorem held_eq_some {obj : O → Option (Buffer B)} {o : O} {d : B} {s : ℕ} :
    held obj o = some (d, s) ↔ obj o = some ⟨some d, s⟩ := by
  simp only [held, Option.bind_eq_some_iff, entry, Option.map_eq_some_iff, Prod.mk.injEq]
  constructor
  · rintro ⟨⟨d', s'⟩, hobj, e, hd, rfl, hs⟩
    obtain rfl : d' = some e := hd
    obtain rfl : s' = s := hs
    exact hobj
  · intro h
    exact ⟨_, h, d, rfl, rfl, rfl⟩

theorem blocks_ne_none {heap : B → Option (List UInt8)} {d : B} {s : ℕ} :
    blocks heap (d, s) ≠ none ↔ ∃ bytes, heap d = some bytes ∧ bytes.length = s := by
  rw [Option.ne_none_iff_exists']
  simp [blocks, Option.filter_eq_some_iff]

theorem blocks_ne_none_iff_map {heap : B → Option (List UInt8)} {d : B} {s : ℕ} :
    blocks heap (d, s) ≠ none ↔ (heap d).map List.length = some s := by
  simp [blocks_ne_none]

section Blocks

variable [DecidableEq B] {heap : B → Option (List UInt8)} {d : B}

/-- Freeing a block of the right size strikes out its entry. -/
theorem blocks_free {s : ℕ} (hs : (heap d).map List.length = some s) :
    blocks (update heap d none) = update (blocks heap) (d, s) none := by
  obtain ⟨bytes, hd, rfl⟩ := Option.map_eq_some_iff.mp hs
  funext ⟨e, n⟩
  rcases eq_or_ne e d with rfl | he
  · by_cases hn : n = bytes.length
    · subst hn; simp [blocks]
    · simp [blocks, hd, hn, Ne.symm hn, Option.filter]
  · simp [blocks, he]

/-- Bytes written to a block that is not live, or as long as they are, go under
the entry with their length. -/
theorem blocks_write {bytes : List UInt8}
    (hold : ∀ old, heap d = some old → old.length = bytes.length) :
    blocks (update heap d (some bytes)) = update (blocks heap) (d, bytes.length) (some bytes) := by
  funext ⟨e, n⟩
  rcases eq_or_ne e d with rfl | he
  · by_cases hn : n = bytes.length
    · subst hn; simp [blocks, Option.filter]
    · cases hd : heap e with
      | none => simp [blocks, hd, hn, Ne.symm hn, Option.filter]
      | some old => simp [blocks, hd, hn, Ne.symm hn, hold old hd, Option.filter]
  · simp [blocks, he]

end Blocks

/-! ### Balance as custody -/

/-- A buffer without a block has size zero. -/
def NullSize (obj : O → Option (Buffer B)) : Prop := ∀ o s, obj o = some ⟨none, s⟩ → s = 0

theorem NullSize.update [DecidableEq O] {obj : O → Option (Buffer B)} (h : NullSize obj) (o : O)
    {x : Option (Buffer B)} (hx : ∀ s, x = some ⟨none, s⟩ → s = 0) :
    NullSize (update obj o x) := by
  intro p s hp
  rcases eq_or_ne p o with rfl | hpo
  · rw [update_self] at hp
    exact hx s hp
  · rw [update_of_ne hpo] at hp
    exact h p s hp

theorem held_of_d {m : Memory O B} {o : O} {d : B} (h : (m.fields o).d = some d) :
    ∃ s, held m.obj o = some (d, s) := by
  cases hb : m.obj o with
  | none => simp [Memory.fields, hb] at h
  | some b =>
      obtain ⟨d', s⟩ := b
      obtain rfl : d' = some d := by simpa [Memory.fields, hb] using h
      exact ⟨s, held_eq_some.mpr hb⟩

theorem d_of_held {m : Memory O B} {o : O} {d : B} {s : ℕ} (h : held m.obj o = some (d, s)) :
    (m.fields o).d = some d := by
  simp [Memory.fields, held_eq_some.mp h]

theorem balanced_iff {m : Memory O B} :
    Balanced m ↔ Ledger (held m.obj) m.own (blocks m.heap) ∧ NullSize m.obj ∧ m.misuses = [] := by
  constructor
  · intro hm
    refine ⟨⟨⟨?_, ?_⟩, ?_, ?_, ?_⟩, ?_, hm.noMisuse⟩
    · rintro o o' ⟨d, s⟩ ho ho'
      exact hm.exclusive o o' d (d_of_held ho) (d_of_held ho')
    · rintro o ⟨d, s⟩ ho
      obtain hnull | ⟨e, bytes, he, hbytes, hs⟩ := hm.null_or_live o _ (held_eq_some.mp ho)
      · cases hnull
      · obtain rfl : d = e := Option.some.inj he
        exact blocks_ne_none.mpr ⟨bytes, hbytes, hs⟩
    · rintro ⟨d, s⟩ hown
      exact blocks_ne_none.mpr (hm.own_apart d s hown).1
    · rintro ⟨d, s⟩ hown o ho
      exact (hm.own_apart d s hown).2 o (d_of_held ho)
    · rintro ⟨d, s⟩ hlive
      obtain ⟨bytes, hd, rfl⟩ := blocks_ne_none.mp hlive
      exact (hm.accounted d bytes hd).imp_right fun ⟨o, ho⟩ => ⟨o, held_eq_some.mpr ho⟩
    · intro o s ho
      obtain hnull | ⟨e, bytes, he, -⟩ := hm.null_or_live o _ ho
      · exact congrArg Buffer.s hnull
      · cases he
  · rintro ⟨hledger, hnull, hmisuse⟩
    -- a block has one size, so it has one entry
    have hsize : ∀ {d s s'}, blocks m.heap (d, s) ≠ none → blocks m.heap (d, s') ≠ none →
        s = s' := by
      intro d s s' h h'
      obtain ⟨bytes, hd, rfl⟩ := blocks_ne_none.mp h
      obtain ⟨bytes', hd', rfl⟩ := blocks_ne_none.mp h'
      rw [Option.some.inj (hd.symm.trans hd')]
    refine ⟨?_, ?_, ?_, ?_, hmisuse⟩
    · rintro o ⟨_ | d, s⟩ ho
      · obtain rfl := hnull o s ho
        exact .inl rfl
      · obtain ⟨bytes, hd, hs⟩ := blocks_ne_none.mp (hledger.live (held_eq_some.mpr ho))
        exact .inr ⟨d, bytes, rfl, hd, hs⟩
    · intro o o' d ho ho'
      obtain ⟨s, hs⟩ := held_of_d ho
      obtain ⟨s', hs'⟩ := held_of_d ho'
      obtain rfl := hsize (hledger.live hs) (hledger.live hs')
      exact hledger.exclusive hs hs'
    · intro d s hown
      refine ⟨blocks_ne_none.mp (hledger.own_live hown), fun o ho => ?_⟩
      obtain ⟨s', hs'⟩ := held_of_d ho
      obtain rfl := hsize (hledger.own_live hown) (hledger.live hs')
      exact hledger.own_apart hown o hs'
    · intro d bytes hd
      refine (hledger.covered (blocks_ne_none.mpr ⟨bytes, hd, rfl⟩)).imp_right ?_
      exact fun ⟨o, ho⟩ => ⟨o, held_eq_some.mp ho⟩

theorem balanced_init (heap : B → Option (List UInt8)) :
    Balanced (Memory.init heap : Memory O B) := by
  refine balanced_iff.mpr ⟨?_, nofun, rfl⟩
  have hown : (Memory.init heap : Memory O B).own = fun e => (blocks heap e).isSome := by
    funext ⟨d, s⟩
    rw [Bool.eq_iff_iff, Option.isSome_iff_ne_none, blocks_ne_none_iff_map]
    simp [Memory.init]
  rw [hown]
  exact Ledger.empty _

/-! ### The rules -/

section Rules

variable {m : Memory O B}

/-- What a buffer reads of itself when it exists. -/
theorem fields_of_some {o : O} {b : Buffer B} (h : m.obj o = some b) : m.fields o = b := by
  simp [Memory.fields, h]

theorem entry_fields (m : Memory O B) (o : O) : entry (m.fields o) = held m.obj o := by
  cases h : m.obj o <;> simp [Memory.fields, held, h]

theorem held_of_obj_none {o : O} (h : m.obj o = none) : held m.obj o = none := by
  simp [held, h]

theorem d_of_held_none {o : O} (h : held m.obj o = none) : (m.fields o).d = none := by
  rw [← entry_fields] at h
  exact Option.map_eq_none_iff.mp h

section Bytes

variable [DecidableEq B]

theorem Memory.nngFree_of_size {d : B} {s : ℕ} (h : (m.heap d).map List.length = some s) :
    m.nngFree d s = { m with heap := update m.heap d none } := by
  simp [Memory.nngFree, h]

/-- The caller frees a block of its own. -/
theorem Balanced.freeOwn (hm : Balanced m) {d : B} {s : ℕ} (hd : m.own (d, s) = true) :
    Balanced ((m.nngFree d s).part ⟨some d, s⟩) := by
  obtain ⟨hledger, hnull, hmisuse⟩ := balanced_iff.mp hm
  have hsize := blocks_ne_none_iff_map.mp (hledger.own_live hd)
  rw [Memory.nngFree_of_size hsize]
  refine balanced_iff.mpr ⟨?_, hnull, hmisuse⟩
  simpa [Memory.part, blocks_free hsize] using hledger.freeOwn hd

/-- The caller gets a block from nng. -/
theorem Balanced.handOut (hm : Balanced m) {d : B} (bytes : List UInt8) (hd : m.heap d = none) :
    Balanced ({ m with heap := update m.heap d (some bytes) }.keep ⟨some d, bytes.length⟩) := by
  obtain ⟨hledger, hnull, hmisuse⟩ := balanced_iff.mp hm
  refine balanced_iff.mpr ⟨?_, hnull, hmisuse⟩
  have hfresh : blocks m.heap (d, bytes.length) = none := by simp [blocks, hd]
  have hblocks : blocks (update m.heap d (some bytes)) =
      update (blocks m.heap) (d, bytes.length) (some bytes) := blocks_write (by simp [hd])
  simpa [Memory.keep, hblocks] using hledger.handOut hfresh bytes

/-- As many bytes are written to a live block as it has. -/
theorem Balanced.write (hm : Balanced m) {d : B} {old bytes : List UInt8}
    (hold : m.heap d = some old) (hlen : old.length = bytes.length) :
    Balanced { m with heap := update m.heap d (some bytes) } := by
  obtain ⟨hledger, hnull, hmisuse⟩ := balanced_iff.mp hm
  refine balanced_iff.mpr ⟨?_, hnull, hmisuse⟩
  have hblocks : blocks (update m.heap d (some bytes)) =
      update (blocks m.heap) (d, bytes.length) (some bytes) :=
    blocks_write fun old' hold' => Option.some.inj (hold.symm.trans hold') ▸ hlen
  simpa [hblocks] using hledger.rewrite (blocks_ne_none.mpr ⟨old, hold, hlen⟩) bytes

/-- Between two buffers of one size `memcpy` either has nothing to do, or replaces
what is in the block of the one by what is in the block of the other. -/
theorem Balanced.memcpy_cases (hm : Balanced m) {this rhs : O} {d src : Option B} {n : ℕ}
    (hne : this ≠ rhs) (hthis : m.obj this = some ⟨d, n⟩) (hrhs : m.obj rhs = some ⟨src, n⟩) :
    (n = 0 ∧ m.memcpy d src n = m) ∨
    ∃ b c old bytes, d = some b ∧ src = some c ∧ m.heap b = some old ∧ old.length = n ∧
      m.heap c = some bytes ∧ bytes.length = n ∧ b ≠ c ∧
      m.memcpy d src n = { m with heap := update m.heap b (some bytes) } := by
  obtain ⟨hledger, hnull, -⟩ := balanced_iff.mp hm
  rcases Nat.eq_zero_or_pos n with rfl | hn
  · exact .inl ⟨rfl, by simp [Memory.memcpy]⟩
  -- of a size other than zero, both have a block
  obtain _ | b := d
  · have hzero := hnull this n hthis
    omega
  obtain _ | c := src
  · have hzero := hnull rhs n hrhs
    omega
  obtain ⟨old, hold, hlen⟩ := blocks_ne_none.mp (hledger.live (held_eq_some.mpr hthis))
  obtain ⟨bytes, hbytes, hlen'⟩ := blocks_ne_none.mp (hledger.live (held_eq_some.mpr hrhs))
  have hdiff : b ≠ c := by
    rintro rfl
    exact hne (hledger.exclusive (held_eq_some.mpr hthis) (held_eq_some.mpr hrhs))
  refine .inr ⟨b, c, old, bytes, rfl, rfl, hold, hlen, hbytes, hlen', hdiff, ?_⟩
  have hbound : n ≤ old.length ∧ n ≤ bytes.length := by omega
  have hall : bytes.take n ++ old.drop n = bytes := by
    rw [List.take_of_length_le hlen'.le, List.drop_of_length_le hlen.le, List.append_nil]
  simp [Memory.memcpy, Nat.ne_of_gt hn, hold, hbytes, hdiff, hbound, hall]

/-- Bytes are copied between two buffers of one size. -/
theorem Balanced.memcpy (hm : Balanced m) {this rhs : O} {d src : Option B} {n : ℕ}
    (hne : this ≠ rhs) (hthis : m.obj this = some ⟨d, n⟩) (hrhs : m.obj rhs = some ⟨src, n⟩) :
    Balanced (m.memcpy d src n) := by
  obtain ⟨-, h⟩ | ⟨b, c, old, bytes, -, -, hold, hlen, -, hlen', -, h⟩ :=
    hm.memcpy_cases hne hthis hrhs
  · rwa [h]
  · rw [h]
    exact hm.write hold (by omega)

end Bytes

variable [DecidableEq O]

/-- A buffer that holds nothing is made, or unmade. -/
theorem Balanced.drop (hm : Balanced m) {this : O} (hthis : held m.obj this = none)
    {x : Option (Buffer B)} (hx : x = none ∨ x = some ⟨none, 0⟩) :
    Balanced { m with obj := update m.obj this x } := by
  obtain ⟨hledger, hnull, hmisuse⟩ := balanced_iff.mp hm
  refine balanced_iff.mpr ⟨?_, hnull.update this ?_, hmisuse⟩
  · have hsame : update (held m.obj) this none = held m.obj := by
      rw [← hthis, update_eq_self]
    rcases hx with rfl | rfl <;> simpa [hsame] using hledger
  · rcases hx with rfl | rfl
    · nofun
    · rintro s ⟨⟩; rfl

/-- A buffer that holds nothing gets the members of another, which is left null. -/
theorem Balanced.move (hm : Balanced m) {this rhs : O} (hne : this ≠ rhs)
    (hthis : held m.obj this = none) (hrhs : m.obj rhs ≠ none) :
    Balanced { m with
      obj := update (update m.obj this (some (m.fields rhs))) rhs (some ⟨none, 0⟩) } := by
  obtain ⟨hledger, hnull, hmisuse⟩ := balanced_iff.mp hm
  obtain ⟨b, hb⟩ := Option.ne_none_iff_exists'.mp hrhs
  refine balanced_iff.mpr ⟨?_, (hnull.update this ?_).update rhs ?_, hmisuse⟩
  · simpa [entry_fields] using hledger.move hne hthis
  · rw [fields_of_some hb, ← hb]
    exact hnull rhs
  · rintro s ⟨⟩; rfl

variable [DecidableEq B]

/-- The caller has a block of its own adopted. -/
theorem Balanced.adopt (hm : Balanced m) {this : O} (hthis : m.obj this = none) {d : Option B}
    {s : ℕ} (hs : d = none → s = 0) (hd : ∀ b, d = some b → m.own (b, s) = true) :
    Balanced ((m.part ⟨d, s⟩).adopt this d s) := by
  have hempty := held_of_obj_none hthis
  cases d with
  | none => rw [hs rfl]; exact hm.drop hempty (.inr rfl)
  | some d =>
      obtain ⟨hledger, hnull, hmisuse⟩ := balanced_iff.mp hm
      refine balanced_iff.mpr ⟨?_, hnull.update this nofun, hmisuse⟩
      simpa [Memory.adopt, Memory.part] using hledger.adopt hempty (hd d rfl)

/-- A buffer lets the caller have its block. -/
theorem Balanced.release (hm : Balanced m) (this : O) :
    Balanced ((m.release this).2.keep (m.fields this)) := by
  cases hb : held m.obj this with
  | none =>
      simpa [Memory.release, Memory.keep, d_of_held_none hb] using hm.drop hb (.inr rfl)
  | some e =>
      obtain ⟨d, s⟩ := e
      obtain ⟨hledger, hnull, hmisuse⟩ := balanced_iff.mp hm
      have hfields : m.fields this = ⟨some d, s⟩ := fields_of_some (held_eq_some.mp hb)
      refine balanced_iff.mpr ⟨?_, ?_, ?_⟩
      · simpa [Memory.release, Memory.keep, hfields] using hledger.surrender hb
      · simp only [Memory.release, Memory.keep, hfields]
        exact hnull.update this (by rintro n ⟨⟩; rfl)
      · simpa [Memory.release, Memory.keep, hfields] using hmisuse

/-- A buffer frees its block, and forgets it. -/
theorem Balanced.give_back (hm : Balanced m) (this : O) {x : Option (Buffer B)}
    (hx : x = none ∨ x = some ⟨none, 0⟩) :
    Balanced { m.freeIf (m.fields this) with obj := update m.obj this x } := by
  cases hb : held m.obj this with
  | none =>
      simpa [Memory.freeIf, d_of_held_none hb] using hm.drop hb hx
  | some e =>
      obtain ⟨d, s⟩ := e
      obtain ⟨hledger, hnull, hmisuse⟩ := balanced_iff.mp hm
      have hfields : m.fields this = ⟨some d, s⟩ := fields_of_some (held_eq_some.mp hb)
      have hsize := blocks_ne_none_iff_map.mp (hledger.live hb)
      have hback := hledger.give_back hb
      simp only [Memory.freeIf, hfields, Memory.nngFree_of_size hsize]
      refine balanced_iff.mpr ⟨?_, hnull.update this ?_, hmisuse⟩
      · rcases hx with rfl | rfl <;> simpa [blocks_free hsize] using hback
      · rcases hx with rfl | rfl
        · nofun
        · rintro n ⟨⟩; rfl

/-- A buffer that holds nothing gets a fresh block. -/
theorem Balanced.take_fresh (hm : Balanced m) {this : O} (hthis : held m.obj this = none) {d : B}
    {bytes : List UInt8} (hd : m.heap d = none) :
    Balanced { m with
      heap := update m.heap d (some bytes)
      obj := update m.obj this (some ⟨some d, bytes.length⟩) } := by
  obtain ⟨hledger, hnull, hmisuse⟩ := balanced_iff.mp hm
  refine balanced_iff.mpr ⟨?_, hnull.update this nofun, hmisuse⟩
  have hfresh : blocks m.heap (d, bytes.length) = none := by simp [blocks, hd]
  have hblocks : blocks (update m.heap d (some bytes)) =
      update (blocks m.heap) (d, bytes.length) (some bytes) := blocks_write (by simp [hd])
  simpa [hblocks] using hledger.take_fresh hthis hfresh bytes

end Rules

/-! ### The allocation flag -/

theorem flags_or_alloc (alloc : AllocFlag) (flags : BitVec 32) :
    (flags ||| alloc.bits) &&& alloc.bits = alloc.bits := by
  ext i hi
  simp only [BitVec.getElem_and, BitVec.getElem_or]
  cases alloc.bits[i] <;> simp

theorem flags_andNot_alloc (alloc : AllocFlag) (flags : BitVec 32) :
    (flags &&& ~~~alloc.bits) &&& alloc.bits = 0#32 := by
  ext i hi
  simp only [BitVec.getElem_and, BitVec.getElem_not]
  cases alloc.bits[i] <;> simp

/-! ### What each operation leaves -/

/-- A send of a view leaves everything as it was, whatever the flags. -/
theorem leaves_sendView [DecidableEq B] (m : Memory O B) (alloc : AllocFlag) (b : Buffer B)
    (flags : BitVec 32) (r : Error) :
    leaves (sendView alloc b flags r) m = m := by
  by_cases hr : r = .success
  · subst hr
    refine leaves_of_ok (a := ()) ?_
    simp [sendView, nngSend, flags_andNot_alloc]
  · refine leaves_of_error (e := ⟨r, "nng_send"⟩) ?_
    simp [sendView, nngSend, hr, run_check_of_ne hr]

variable [DecidableEq O]

section Leaves

variable (m : Memory O B)

@[simp] theorem Memory.fields_update_self (obj : O → Option (Buffer B))
    (heap : B → Option (List UInt8)) (own : B × ℕ → Bool) (misuses : List (Misuse B)) (o : O)
    (b : Buffer B) : Memory.fields ⟨update obj o (some b), heap, own, misuses⟩ o = b := by
  simp [Memory.fields]

theorem Memory.fields_update_of_ne {o p : O} (hne : p ≠ o) (x : Option (Buffer B))
    (heap : B → Option (List UInt8)) (own : B × ℕ → Bool) (misuses : List (Misuse B)) :
    Memory.fields ⟨update m.obj o x, heap, own, misuses⟩ p = m.fields p := by
  simp [Memory.fields, hne]

variable [DecidableEq B]

/-- The memory once a buffer has been given a fresh block. -/
def Memory.withBlock (this : O) (d : B) (bytes : List UInt8) (s : ℕ) : Memory O B :=
  { m with heap := update m.heap d (some bytes), obj := update m.obj this (some ⟨some d, s⟩) }

@[simp] theorem Memory.fields_withBlock_self (this : O) (d : B) (bytes : List UInt8) (s : ℕ) :
    (m.withBlock this d bytes s).fields this = ⟨some d, s⟩ := by
  simp [Memory.withBlock]

theorem Memory.fields_withBlock_of_ne {this rhs : O} (hne : rhs ≠ this) (d : B)
    (bytes : List UInt8) (s : ℕ) : (m.withBlock this d bytes s).fields rhs = m.fields rhs :=
  m.fields_update_of_ne hne _ _ _ _

omit [DecidableEq O] in
theorem Memory.obj_freeIf (b : Buffer B) : (m.freeIf b).obj = m.obj := by
  obtain ⟨_ | d, s⟩ := b
  · rfl
  · simp only [Memory.freeIf, Memory.nngFree]; split <;> rfl

omit [DecidableEq O] in
@[simp] theorem Memory.fields_freeIf (b : Buffer B) (o : O) :
    (m.freeIf b).fields o = m.fields o := by
  simp [Memory.fields, Memory.obj_freeIf]

theorem run_sized_some (this : O) (sz : ℕ) (d : B) (bytes : List UInt8) :
    (sized this sz (some (d, bytes))).run m = .ok () (m.withBlock this d bytes sz) := by
  simp [sized, construct, nngAlloc, Memory.adopt, Memory.withBlock]

theorem run_sized_none {this : O} (hthis : m.obj this = none) (sz : ℕ) :
    (sized this sz (none : Option (B × List UInt8))).run m =
      .error ⟨.nomem, "nng_alloc"⟩ m := by
  have herase : update m.obj this none = m.obj := by simp [← hthis]
  simp [sized, construct, nngAlloc, Memory.adopt, setS, herase]

theorem run_copyCtor_some {this rhs : O} (hne : this ≠ rhs) (d : B) (bytes : List UInt8) :
    (copyCtor this rhs (some (d, bytes))).run m = .ok ()
      ((m.withBlock this d bytes (m.fields rhs).s).memcpy (some d) (m.fields rhs).d
        (m.fields rhs).s) := by
  have hsized := run_sized_some m this (m.fields rhs).s d bytes
  simp [copyCtor, hsized, Memory.fields_withBlock_of_ne m (Ne.symm hne)]

theorem run_copyCtor_none {this : O} (hthis : m.obj this = none) (rhs : O) :
    (copyCtor this rhs (none : Option (B × List UInt8))).run m =
      .error ⟨.nomem, "nng_alloc"⟩ m := by
  have hsized := run_sized_none m hthis (m.fields rhs).s
  simp [copyCtor, hsized]

theorem run_copyAssign_self (this : O) (ans : Option (B × List UInt8)) :
    (copyAssign this this ans).run m = .ok () m := by
  simp [copyAssign]

/-- Between buffers of one size the bytes are copied into the block there is. -/
theorem run_copyAssign_same {this rhs : O} (hne : this ≠ rhs)
    (hs : (m.fields this).s = (m.fields rhs).s) (ans : Option (B × List UInt8)) :
    (copyAssign this rhs ans).run m =
      .ok () (m.memcpy (m.fields this).d (m.fields rhs).d (m.fields this).s) := by
  simp [copyAssign, hne, hs]

theorem run_copyAssign_some {this rhs : O} (hne : this ≠ rhs)
    (hs : (m.fields this).s ≠ (m.fields rhs).s) (d : B) (bytes : List UInt8) :
    (copyAssign this rhs (some (d, bytes))).run m = .ok ()
      (((m.freeIf (m.fields this)).withBlock this d bytes (m.fields rhs).s).memcpy (some d)
        (m.fields rhs).d (m.fields rhs).s) := by
  simp [copyAssign, hne, hs, nngAlloc, setD, setS, Memory.withBlock, Memory.obj_freeIf,
    Memory.fields_update_of_ne m (Ne.symm hne)]

theorem run_copyAssign_none {this rhs : O} (hne : this ≠ rhs)
    (hs : (m.fields this).s ≠ (m.fields rhs).s) :
    (copyAssign this rhs (none : Option (B × List UInt8))).run m = .error ⟨.nomem, "nng_alloc"⟩
      { m.freeIf (m.fields this) with obj := update m.obj this (some ⟨none, 0⟩) } := by
  simp [copyAssign, hne, hs, nngAlloc, setD, setS, Memory.obj_freeIf]

variable (alloc : AllocFlag)

theorem leaves_recv_ok (this : O) (flags : BitVec 32) (d : B) (bytes : List UInt8) :
    leaves (recv alloc this flags (.ok (d, bytes))) m = m.withBlock this d bytes bytes.length := by
  refine leaves_of_ok (a := ()) ?_
  simp [recv, nngRecv, flags_or_alloc, alloc.ne_zero, Memory.adopt, Memory.withBlock]

theorem leaves_recv_error (this : O) (flags : BitVec 32) (e : Failure) :
    leaves (recv alloc this flags (.error e : Answer (B × List UInt8))) m = m := by
  refine leaves_of_error (e := ⟨e.val, "nng_recv"⟩) ?_
  simp [recv, nngRecv]

/-- The size of the buffer is the size of the block: nng's string ends at its
terminator and nowhere before. -/
theorem leaves_getOptString_ok (source : String) (this : O) (d : B) (str : CString) :
    leaves (getOptString source this (.ok (d, str))) m =
      m.withBlock this d (str.val ++ [0]) (str.val ++ [0]).length := by
  refine leaves_of_ok (a := ()) ?_
  simp [getOptString, nngGetString, Memory.adopt, Memory.withBlock, strlen_terminated]

theorem leaves_getOptString_error (source : String) (this : O) (e : Failure) :
    leaves (getOptString source this (.error e : Answer (B × CString))) m = m := by
  refine leaves_of_error (e := ⟨e.val, source⟩) ?_
  simp [getOptString, nngGetString]

/-- A send that succeeds leaves the buffer null: nng has freed its block. -/
theorem run_send_success (this : O) (flags : BitVec 32) :
    (send alloc this flags .success).run m = .ok ()
      { m.freeIf (m.fields this) with obj := update m.obj this (some ⟨none, 0⟩) } := by
  simp [send, nngSend, flags_or_alloc, alloc.ne_zero, Memory.release, Memory.obj_freeIf]

/-- A send that fails leaves everything as it was. -/
theorem run_send_failure (this : O) (flags : BitVec 32) {r : Error} (hr : r ≠ .success) :
    (send alloc this flags r).run m = .error ⟨r, "nng_send"⟩ m := by
  simp [send, nngSend, hr, run_check_of_ne hr]

end Leaves

variable [DecidableEq B]

/-! ### The step lemma -/

theorem Balanced.withBlock {m : Memory O B} (hm : Balanced m) {this : O}
    (hthis : held m.obj this = none) {d : B} {bytes : List UInt8} {s : ℕ} (hd : m.heap d = none)
    (hs : bytes.length = s) : Balanced (m.withBlock this d bytes s) := by
  subst hs
  exact hm.take_fresh hthis hd

/-- A fresh block of the size of another buffer, and its bytes copied there. -/
theorem Balanced.copy {m : Memory O B} (hm : Balanced m) {this rhs : O} (hne : this ≠ rhs)
    (hthis : held m.obj this = none) (hrhs : m.obj rhs ≠ none) {d : B} {bytes : List UInt8}
    (hd : m.heap d = none)
    (hs : bytes.length = (m.fields rhs).s) :
    Balanced ((m.withBlock this d bytes (m.fields rhs).s).memcpy (some d) (m.fields rhs).d
      (m.fields rhs).s) := by
  obtain ⟨b, hb⟩ := Option.ne_none_iff_exists'.mp hrhs
  have hsrc : (m.withBlock this d bytes (m.fields rhs).s).obj rhs =
      some ⟨(m.fields rhs).d, (m.fields rhs).s⟩ := by
    simp [Memory.withBlock, Ne.symm hne, hb, fields_of_some hb]
  exact (hm.withBlock hthis hd hs).memcpy hne (by simp [Memory.withBlock]) hsrc

theorem balanced_copyAssign {m : Memory O B} (hm : Balanced m) {this rhs : O}
    (hthis : m.obj this ≠ none) (hrhs : m.obj rhs ≠ none) {ans : Option (B × List UInt8)}
    (hans : Allocates (m.freeIf (m.fields this)) (m.fields rhs).s ans) :
    Balanced (leaves (copyAssign this rhs ans) m) := by
  rcases eq_or_ne this rhs with rfl | hne
  · rwa [leaves_of_ok (run_copyAssign_self m this ans)]
  by_cases hs : (m.fields this).s = (m.fields rhs).s
  · obtain ⟨b, hb⟩ := Option.ne_none_iff_exists'.mp hthis
    obtain ⟨c, hc⟩ := Option.ne_none_iff_exists'.mp hrhs
    rw [leaves_of_ok (run_copyAssign_same m hne hs ans)]
    have hdst : m.obj this = some ⟨(m.fields this).d, (m.fields this).s⟩ := by
      rw [fields_of_some hb, hb]
    have hsrc : m.obj rhs = some ⟨(m.fields rhs).d, (m.fields this).s⟩ := by
      rw [hs, fields_of_some hc, hc]
    exact hm.memcpy hne hdst hsrc
  · have hfreed := hm.give_back this (.inr rfl)
    match ans with
    | none => rwa [leaves_of_error (run_copyAssign_none m hne hs)]
    | some (d, bytes) =>
        obtain ⟨hd, hbytes⟩ := hans d bytes rfl
        rw [leaves_of_ok (run_copyAssign_some m hne hs d bytes)]
        have hrhs' := Memory.fields_update_of_ne m (Ne.symm hne) (some ⟨none, 0⟩)
          (m.freeIf (m.fields this)).heap (m.freeIf (m.fields this)).own
          (m.freeIf (m.fields this)).misuses
        have hcopy := hfreed.copy hne (by simp) (by simpa [Ne.symm hne] using hrhs) hd
          (by rw [hrhs', hbytes])
        simpa [Memory.withBlock, hrhs', Memory.obj_freeIf] using hcopy

/-- Every enabled operation keeps the balance, whether it returns or throws. -/
theorem balanced_step (alloc : AllocFlag) {m : Memory O B} (hm : Balanced m) (op : Op O B)
    (hop : Enabled m op) : Balanced (exec alloc m op) := by
  unfold exec
  cases op with
  | default this => exact hm.drop (held_of_obj_none hop) (.inr rfl)
  | sized this sz ans =>
      match ans with
      | none => rwa [Op.call, leaves_of_error (run_sized_none m hop.1 sz)]
      | some (d, bytes) =>
          rw [Op.call, leaves_of_ok (run_sized_some m this sz d bytes)]
          obtain ⟨hd, hbytes⟩ := hop.2 d bytes rfl
          exact hm.withBlock (held_of_obj_none hop.1) hd hbytes
  | adopt this d s => exact hm.adopt hop.1 hop.2.1 hop.2.2
  | copyCtor this rhs ans =>
      obtain ⟨hthis, hrhs, hans⟩ := hop
      have hne : this ≠ rhs := by rintro rfl; exact hrhs hthis
      match ans with
      | none => rwa [Op.call, leaves_of_error (run_copyCtor_none m hthis rhs)]
      | some (d, bytes) =>
          rw [Op.call, leaves_of_ok (run_copyCtor_some m hne d bytes)]
          exact hm.copy hne (held_of_obj_none hthis) hrhs (hans d bytes rfl).1 (hans d bytes rfl).2
  | copyAssign this rhs ans => exact balanced_copyAssign hm hop.1 hop.2.1 hop.2.2
  | moveCtor this rhs =>
      have hne : this ≠ rhs := by rintro rfl; exact hop.2 hop.1
      exact hm.move hne (held_of_obj_none hop.1) hop.2
  | moveAssign this rhs =>
      show Balanced (m.moveAssign this rhs)
      by_cases hne : this = rhs
      · simpa [Memory.moveAssign, hne] using hm
      · have hmove := (hm.give_back this (.inr rfl)).move hne (by simp)
          (by simpa [Ne.symm hne] using hop.2)
        rw [Memory.fields_update_of_ne m (Ne.symm hne)] at hmove
        simpa [Memory.moveAssign, hne, Memory.obj_freeIf] using hmove
  | destroy this =>
      have hdestroy := hm.give_back this (.inl rfl)
      rwa [← Memory.obj_freeIf m (m.fields this)] at hdestroy
  | release this => exact hm.release this
  | recv this flags ans =>
      match ans with
      | .error e => rwa [Op.call, leaves_recv_error]
      | .ok (d, bytes) =>
          rw [Op.call, leaves_recv_ok]
          exact hm.withBlock (held_of_obj_none hop.1) (hop.2 d bytes rfl) rfl
  | getOptString source this ans =>
      match ans with
      | .error e => rwa [Op.call, leaves_getOptString_error]
      | .ok (d, str) =>
          rw [Op.call, leaves_getOptString_ok]
          exact hm.withBlock (held_of_obj_none hop.1) (hop.2 d str rfl) rfl
  | send this flags r =>
      by_cases hr : r = .success
      · subst hr
        rw [Op.call, leaves_of_ok (run_send_success m alloc this flags)]
        exact hm.give_back this (.inr rfl)
      · rwa [Op.call, leaves_of_error (run_send_failure m alloc this flags hr)]
  | handOut d bytes => exact hm.handOut bytes hop
  | freeOwn d s => exact hm.freeOwn hop

/-! ### Whole runs -/

/-- In every reachable state, right after an exception too, each buffer is null
with size zero or has a live block of its size to itself, no block is lost, and
none has been freed twice or with another size. -/
theorem buffers_balanced (alloc : AllocFlag) {heap : B → Option (List UInt8)}
    {tr : List (Transition (Memory O B) (Op O B))} {m : Memory O B}
    (run : Run (Step alloc) (Memory.init heap) tr m) : Balanced m := by
  refine run.invariant (balanced_init heap) ?_
  rintro m op m' hm ⟨hop, rfl⟩
  exact balanced_step alloc hm op hop

/-- nng's own bit for the flag. -/
def nngFlag : AllocFlag := ⟨1, by decide⟩

/-- A buffer of one byte is received, assigned to an empty one when there is no
memory for the copy, and sent. -/
theorem buffers_balanced_three :
    let ops : List (Op ℕ ℕ) := [.recv 0 0 (.ok (7, [65])), .default 1, .copyAssign 1 0 none,
      .send 0 0 .success]
    Balanced (ops.foldl (exec nngFlag) (Memory.init fun _ => none)) := by
  intro ops
  have allowed : Run.AllEnabled Enabled (exec nngFlag) (Memory.init fun _ => none) ops :=
    ⟨⟨rfl, fun _ _ _ => rfl⟩, rfl, ⟨nofun, nofun, nofun⟩, nofun, trivial⟩
  exact buffers_balanced nngFlag (Run.of_exec allowed)

end Nngpp.Buffer
