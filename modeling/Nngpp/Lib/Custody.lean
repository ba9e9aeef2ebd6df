import Mathlib.Logic.Function.Basic
import Mathlib.Data.Set.Card
import Mathlib.Logic.Equiv.Basic

/-!
Custody of tokens.

A table `f : P → Option T` says which token each place holds, a heap
`heap : T → Option C` which tokens are live, and with what contents. `Custody`
is the discipline of single ownership: no token is at two places, and every
token held is live. The heap may have live tokens that no place holds, those
that somebody outside the table looks after; what cannot happen is that a place
holds a token which has already been given back.

Every operation on a table is a chain of `Function.update`s, and so is every
operation on a heap, so the rules below are stated for one update at a time:
`take` and `drop` for the table, `alloc` and `free` for the heap, `move` for the
two updates that hand a token from one place to another, and `exchange` for a
place that gives one token back and takes another.

A `Ledger` is custody in which nothing is lost: what no place holds is accounted
for as somebody else's. It has the same rules, except that a place can no longer
let go of a token without saying to whom. `Entrusted` tells those to whom a token
was handed over from the tokens that are gone for good.

The last section counts the places which hold a token, for the tokens that may
be held more than once as long as they are given back as often.
-/

namespace Nngpp.Lib

open Function

variable {P T C : Type*}

/-- A heap from which a token has been freed, if there was one. -/
def without [DecidableEq T] (heap : T → Option C) : Option T → T → Option C
  | none => heap
  | some t => update heap t none

/-- No token is at two places, and every token held is live. -/
structure Custody (f : P → Option T) (heap : T → Option C) : Prop where
  /-- No two places hold the same token. -/
  exclusive : ∀ ⦃p q t⦄, f p = some t → f q = some t → p = q
  /-- Every token held is live. -/
  live : ∀ ⦃p t⦄, f p = some t → heap t ≠ none

namespace Custody

variable {f : P → Option T} {heap : T → Option C}

/-- A table which holds nothing. -/
theorem empty (heap : T → Option C) : Custody (fun _ : P => none) heap where
  exclusive _ _ _ h := by simp at h
  live _ _ h := by simp at h

/-- A token that is not live is nowhere. -/
theorem not_held (h : Custody f heap) {t : T} (ht : heap t = none) (p : P) :
    f p ≠ some t :=
  fun hp => h.live hp ht

/-- The token at one place is at no other. -/
theorem not_held_elsewhere (h : Custody f heap) {p q : P} {t : T} (hp : f p = some t)
    (hq : q ≠ p) : f q ≠ some t :=
  fun hqt => hq (h.exclusive hqt hp)

/-- A table that holds nothing more is in custody of no more. -/
theorem mono (h : Custody f heap) {g : P → Option T} (hg : ∀ p t, g p = some t → f p = some t) :
    Custody g heap where
  exclusive _ _ _ hp hq := h.exclusive (hg _ _ hp) (hg _ _ hq)
  live _ _ hp := h.live (hg _ _ hp)

section Table

variable [DecidableEq P]

/-- A place lets go of what it holds. -/
theorem drop (h : Custody f heap) (p : P) : Custody (update f p none) heap := by
  refine h.mono fun q t hq => ?_
  rcases eq_or_ne q p with rfl | hqp
  · simp at hq
  · rwa [update_of_ne hqp] at hq

/-- A place takes a live token which nobody else holds. -/
theorem take (h : Custody f heap) {p : P} {t : T} (ht : heap t ≠ none)
    (hfree : ∀ q, q ≠ p → f q ≠ some t) : Custody (update f p (some t)) heap where
  exclusive q r u hq hr := by
    by_cases hqp : q = p <;> by_cases hrp : r = p
    · rw [hqp, hrp]
    · subst hqp
      rw [update_self] at hq
      rw [update_of_ne hrp] at hr
      exact absurd (hr.trans hq.symm) (hfree r hrp)
    · subst hrp
      rw [update_self] at hr
      rw [update_of_ne hqp] at hq
      exact absurd (hq.trans hr.symm) (hfree q hqp)
    · rw [update_of_ne hqp] at hq
      rw [update_of_ne hrp] at hr
      exact h.exclusive hq hr
  live q u hq := by
    rcases eq_or_ne q p with rfl | hqp
    · rw [update_self] at hq
      exact Option.some.inj hq ▸ ht
    · rw [update_of_ne hqp] at hq
      exact h.live hq

/-- One place hands what it holds to another, which lets go of what it held. -/
theorem move (h : Custody f heap) {p q : P} (hne : p ≠ q) :
    Custody (update (update f p (f q)) q none) heap where
  exclusive r s t hr hs := by
    have hrq : r ≠ q := by rintro rfl; simp at hr
    have hsq : s ≠ q := by rintro rfl; simp at hs
    rw [update_of_ne hrq] at hr
    rw [update_of_ne hsq] at hs
    by_cases hrp : r = p <;> by_cases hsp : s = p
    · rw [hrp, hsp]
    · subst hrp
      rw [update_self] at hr
      rw [update_of_ne hsp] at hs
      exact absurd (h.exclusive hs hr) hsq
    · subst hsp
      rw [update_self] at hs
      rw [update_of_ne hrp] at hr
      exact absurd (h.exclusive hr hs) hrq
    · rw [update_of_ne hrp] at hr
      rw [update_of_ne hsp] at hs
      exact h.exclusive hr hs
  live r t hr := by
    have hrq : r ≠ q := by rintro rfl; simp at hr
    rw [update_of_ne hrq] at hr
    rcases eq_or_ne r p with rfl | hrp
    · rw [update_self] at hr
      exact h.live hr
    · rw [update_of_ne hrp] at hr
      exact h.live hr

end Table

section Heap

variable [DecidableEq T]

/-- A token becomes live, or its contents change. -/
theorem alloc (h : Custody f heap) (t : T) (c : C) : Custody f (update heap t (some c)) where
  exclusive := h.exclusive
  live p u hp := by
    rcases eq_or_ne u t with rfl | hut
    · simp
    · rw [update_of_ne hut]; exact h.live hp

/-- The contents of a token change, if it is live. -/
theorem modify (h : Custody f heap) (t : T) (g : C → C) :
    Custody f (update heap t ((heap t).map g)) where
  exclusive := h.exclusive
  live p u hp := by
    rcases eq_or_ne u t with rfl | hut
    · simpa using h.live hp
    · rw [update_of_ne hut]; exact h.live hp

/-- A token that no place holds is given back. -/
theorem free (h : Custody f heap) {t : T} (hfree : ∀ p, f p ≠ some t) :
    Custody f (update heap t none) where
  exclusive := h.exclusive
  live p u hp := by
    have hut : u ≠ t := by rintro rfl; exact hfree p hp
    rw [update_of_ne hut]
    exact h.live hp

end Heap

variable [DecidableEq P] [DecidableEq T]

/-- A place takes a token that has just become live. -/
theorem take_fresh (h : Custody f heap) {p : P} {t : T} (ht : heap t = none) (c : C) :
    Custody (update f p (some t)) (update heap t (some c)) :=
  (h.alloc t c).take (by simp) fun q _ => h.not_held ht q

/-- A place gives back the token it holds. -/
theorem give_back (h : Custody f heap) {p : P} {t : T} (hp : f p = some t) :
    Custody (update f p none) (update heap t none) := by
  refine (h.drop p).free fun q => ?_
  rcases eq_or_ne q p with rfl | hqp
  · simp
  · rw [update_of_ne hqp]; exact h.not_held_elsewhere hp hqp

/-- A place gives back what it holds, if it holds something. -/
theorem retire (h : Custody f heap) (p : P) :
    Custody (update f p none) (without heap (f p)) := by
  cases hp : f p with
  | none => exact h.drop p
  | some t => exact h.give_back hp

end Custody

/-! ### Nothing is lost

A ledger also accounts for the live tokens that are at no place: they are somebody
else's, who is known to the ledger by the tokens `own` that are his. -/

/-- Custody in which every live token is either at a place or somebody else's. -/
structure Ledger (f : P → Option T) (own : T → Bool) (heap : T → Option C) : Prop
    extends Custody f heap where
  own_live : ∀ ⦃t⦄, own t = true → heap t ≠ none
  own_apart : ∀ ⦃t⦄, own t = true → ∀ p, f p ≠ some t
  covered : ∀ ⦃t⦄, heap t ≠ none → own t = true ∨ ∃ p, f p = some t

namespace Ledger

variable {f : P → Option T} {own : T → Bool} {heap : T → Option C}

/-- When no place holds anything, all that is live is somebody else's. -/
theorem empty (heap : T → Option C) :
    Ledger (fun _ : P => none) (fun t => (heap t).isSome) heap where
  toCustody := Custody.empty heap
  own_live _ ht := Option.isSome_iff_ne_none.mp ht
  own_apart _ _ _ := nofun
  covered _ ht := .inl (Option.isSome_iff_ne_none.mpr ht)

section Table

variable [DecidableEq P]

/-- An empty place takes what another lets go of. -/
theorem move (h : Ledger f own heap) {p q : P} (hne : p ≠ q) (hp : f p = none) :
    Ledger (update (update f p (f q)) q none) own heap where
  toCustody := h.toCustody.move hne
  own_live := h.own_live
  own_apart t ht r := by
    rcases eq_or_ne r q with rfl | hrq
    · simp
    · rw [update_of_ne hrq]
      rcases eq_or_ne r p with rfl | hrp
      · rw [update_self]
        exact h.own_apart ht q
      · rw [update_of_ne hrp]
        exact h.own_apart ht r
  covered t ht := by
    refine (h.covered ht).imp_right fun ⟨r, hr⟩ => ?_
    rcases eq_or_ne r q with rfl | hrq
    · exact ⟨p, by rw [update_of_ne hne, update_self, hr]⟩
    · have hrp : r ≠ p := by rintro rfl; rw [hp] at hr; cases hr
      exact ⟨r, by rw [update_of_ne hrq, update_of_ne hrp, hr]⟩

end Table

section Heap

variable [DecidableEq T]

/-- The contents of a live token change. -/
theorem rewrite (h : Ledger f own heap) {t : T} (ht : heap t ≠ none) (c : C) :
    Ledger f own (update heap t (some c)) where
  toCustody := h.toCustody.alloc t c
  own_live u hu := by
    rcases eq_or_ne u t with rfl | hut
    · simp
    · rw [update_of_ne hut]; exact h.own_live hu
  own_apart := h.own_apart
  covered u hu := by
    rcases eq_or_ne u t with rfl | hut
    · exact h.covered ht
    · rw [update_of_ne hut] at hu; exact h.covered hu

/-- A token that becomes live is somebody else's. -/
theorem handOut (h : Ledger f own heap) {t : T} (ht : heap t = none) (c : C) :
    Ledger f (update own t true) (update heap t (some c)) where
  toCustody := h.toCustody.alloc t c
  own_live u hu := by
    rcases eq_or_ne u t with rfl | hut
    · simp
    · rw [update_of_ne hut] at hu ⊢
      exact h.own_live hu
  own_apart u hu p := by
    rcases eq_or_ne u t with rfl | hut
    · exact h.not_held ht p
    · rw [update_of_ne hut] at hu; exact h.own_apart hu p
  covered u hu := by
    rcases eq_or_ne u t with rfl | hut
    · simp
    · rw [update_of_ne hut] at hu ⊢; exact h.covered hu

/-- Somebody else gives back a token of his. -/
theorem freeOwn (h : Ledger f own heap) {t : T} (ht : own t = true) :
    Ledger f (update own t false) (update heap t none) where
  toCustody := h.toCustody.free (h.own_apart ht)
  own_live u hu := by
    have hut : u ≠ t := by rintro rfl; simp at hu
    rw [update_of_ne hut] at hu ⊢
    exact h.own_live hu
  own_apart u hu := by
    have hut : u ≠ t := by rintro rfl; simp at hu
    rw [update_of_ne hut] at hu
    exact h.own_apart hu
  covered u hu := by
    have hut : u ≠ t := by rintro rfl; simp at hu
    rw [update_of_ne hut] at hu ⊢
    exact h.covered hu

end Heap

variable [DecidableEq P] [DecidableEq T]

/-- An empty place takes a token from somebody else. -/
theorem adopt (h : Ledger f own heap) {p : P} {t : T} (hp : f p = none) (ht : own t = true) :
    Ledger (update f p (some t)) (update own t false) heap where
  toCustody := h.toCustody.take (h.own_live ht) fun q _ => h.own_apart ht q
  own_live u hu := by
    have hut : u ≠ t := by rintro rfl; simp at hu
    rw [update_of_ne hut] at hu
    exact h.own_live hu
  own_apart u hu q := by
    have hut : u ≠ t := by rintro rfl; simp at hu
    rw [update_of_ne hut] at hu
    rcases eq_or_ne q p with rfl | hqp
    · simpa using Ne.symm hut
    · rw [update_of_ne hqp]; exact h.own_apart hu q
  covered u hu := by
    rcases eq_or_ne u t with rfl | hut
    · exact .inr ⟨p, update_self ..⟩
    · rw [update_of_ne hut]
      refine (h.covered hu).imp_right fun ⟨q, hq⟩ => ⟨q, ?_⟩
      have hqp : q ≠ p := by rintro rfl; rw [hp] at hq; cases hq
      rw [update_of_ne hqp, hq]

/-- A place gives its token to somebody else. -/
theorem surrender (h : Ledger f own heap) {p : P} {t : T} (hp : f p = some t) :
    Ledger (update f p none) (update own t true) heap where
  toCustody := h.toCustody.drop p
  own_live u hu := by
    rcases eq_or_ne u t with rfl | hut
    · exact h.live hp
    · rw [update_of_ne hut] at hu; exact h.own_live hu
  own_apart u hu q := by
    rcases eq_or_ne q p with rfl | hqp
    · simp
    · rw [update_of_ne hqp]
      rcases eq_or_ne u t with rfl | hut
      · exact h.not_held_elsewhere hp hqp
      · rw [update_of_ne hut] at hu; exact h.own_apart hu q
  covered u hu := by
    rcases eq_or_ne u t with rfl | hut
    · simp
    · rw [update_of_ne hut]
      refine (h.covered hu).imp_right fun ⟨q, hq⟩ => ⟨q, ?_⟩
      have hqp : q ≠ p := by rintro rfl; exact hut (Option.some.inj (hq.symm.trans hp))
      rw [update_of_ne hqp, hq]

/-- An empty place takes a token that has just become live. -/
theorem take_fresh (h : Ledger f own heap) {p : P} {t : T} (hp : f p = none)
    (ht : heap t = none) (c : C) :
    Ledger (update f p (some t)) own (update heap t (some c)) where
  toCustody := h.toCustody.take_fresh ht c
  own_live u hu := by
    rcases eq_or_ne u t with rfl | hut
    · simp
    · rw [update_of_ne hut]; exact h.own_live hu
  own_apart u hu q := by
    rcases eq_or_ne q p with rfl | hqp
    · rw [update_self]
      rintro ⟨⟩
      exact h.own_live hu ht
    · rw [update_of_ne hqp]; exact h.own_apart hu q
  covered u hu := by
    rcases eq_or_ne u t with rfl | hut
    · exact .inr ⟨p, update_self ..⟩
    · rw [update_of_ne hut] at hu
      refine (h.covered hu).imp_right fun ⟨q, hq⟩ => ⟨q, ?_⟩
      have hqp : q ≠ p := by rintro rfl; rw [hp] at hq; cases hq
      rw [update_of_ne hqp, hq]

/-- A place gives back the token it holds. -/
theorem give_back (h : Ledger f own heap) {p : P} {t : T} (hp : f p = some t) :
    Ledger (update f p none) own (update heap t none) where
  toCustody := h.toCustody.give_back hp
  own_live u hu := by
    have hut : u ≠ t := by rintro rfl; exact h.own_apart hu p hp
    rw [update_of_ne hut]
    exact h.own_live hu
  own_apart u hu q := by
    rcases eq_or_ne q p with rfl | hqp
    · simp
    · rw [update_of_ne hqp]; exact h.own_apart hu q
  covered u hu := by
    have hut : u ≠ t := by rintro rfl; simp at hu
    rw [update_of_ne hut] at hu
    refine (h.covered hu).imp_right fun ⟨q, hq⟩ => ⟨q, ?_⟩
    have hqp : q ≠ p := by rintro rfl; exact hut (Option.some.inj (hq.symm.trans hp))
    rw [update_of_ne hqp, hq]

/-- A place gives back what it holds, if it holds something. -/
theorem retire (h : Ledger f own heap) (p : P) :
    Ledger (update f p none) own (without heap (f p)) := by
  cases hp : f p with
  | none =>
      rw [update_eq_self_iff.mpr hp.symm]
      exact h
  | some t => exact h.give_back hp

/-- A place gives what it holds, if it holds something, to somebody else. -/
theorem vacate (h : Ledger f own heap) (p : P) :
    Ledger (update f p none) (fun t => own t || decide (f p = some t)) heap := by
  cases hp : f p with
  | none =>
      rw [update_eq_self_iff.mpr hp.symm]
      simpa using h
  | some t =>
      have hown : (fun u => own u || decide (some t = some u)) = update own t true := by
        ext u
        rcases eq_or_ne u t with rfl | hu
        · simp
        · simp [hu, Ne.symm hu]
      rw [hown]
      exact h.surrender hp

end Ledger

/-! ### Tokens that are handed over, and tokens that are lost

Somebody else may be several: those to whom a token was handed over, and nobody,
when the place that held it forgot it. -/

section Entrusted

variable {N : Type*}

/-- The tokens that were handed over, and those that are gone. -/
def elsewhere (taken : T → Option N) (gone : T → Bool) (t : T) : Bool := (taken t).isSome || gone t

/-- One more token is gone, if there was one. -/
def lose [DecidableEq T] (gone : T → Bool) (p : Option T) (t : T) : Bool :=
  gone t || decide (p = some t)

/-- A ledger in which what is somebody else's was handed over or is gone, and not
both. -/
structure Entrusted (f : P → Option T) (taken : T → Option N) (gone : T → Bool)
    (heap : T → Option C) : Prop extends Ledger f (elsewhere taken gone) heap where
  apart : ∀ ⦃t⦄, gone t = true → taken t = none

namespace Entrusted

variable {f : P → Option T} {taken : T → Option N} {gone : T → Bool} {heap : T → Option C}

/-- When no place holds anything, all that is live was handed over. -/
theorem empty (taken : T → Option N) (content : N → C) :
    Entrusted (fun _ : P => none) taken (fun _ => false) (fun t => (taken t).map content) where
  toLedger := by
    have hown : elsewhere taken (fun _ => false) = fun t => ((taken t).map content).isSome := by
      ext t
      simp [elsewhere]
    rw [hown]
    exact Ledger.empty _
  apart _ := nofun

theorem elsewhere_of_taken (gone : T → Bool) {t : T} (ht : taken t ≠ none) :
    elsewhere taken gone t = true := by
  simp [elsewhere, Option.isSome_iff_ne_none.mpr ht]

theorem elsewhere_of_gone (taken : T → Option N) {t : T} (ht : gone t = true) :
    elsewhere taken gone t = true := by
  simp [elsewhere, ht]

/-- What a place holds was not handed over. -/
theorem taken_of_held (h : Entrusted f taken gone heap) {p : P} {t : T} (hp : f p = some t) :
    taken t = none := by
  by_contra ht
  exact h.own_apart (elsewhere_of_taken gone ht) p hp

theorem gone_of_taken (h : Entrusted f taken gone heap) {t : T} (ht : taken t ≠ none) :
    gone t = false := by
  by_contra hgone
  exact ht (h.apart (Bool.eq_true_of_not_eq_false hgone))

/-- What is gone is just what is live, held by no place and not handed over. -/
theorem gone_iff (h : Entrusted f taken gone heap) {t : T} :
    gone t = true ↔ heap t ≠ none ∧ (∀ p, f p ≠ some t) ∧ taken t = none := by
  constructor
  · intro hgone
    have hown := elsewhere_of_gone taken hgone
    exact ⟨h.own_live hown, h.own_apart hown, h.apart hgone⟩
  · rintro ⟨hlive, hheld, htaken⟩
    rcases h.covered hlive with hown | ⟨p, hp⟩
    · simpa [elsewhere, htaken] using hown
    · exact absurd hp (hheld p)

theorem move [DecidableEq P] (h : Entrusted f taken gone heap) {p q : P} (hne : p ≠ q)
    (hp : f p = none) :
    Entrusted (update (update f p (f q)) q none) taken gone heap where
  toLedger := h.toLedger.move hne hp
  apart := h.apart

section Rules

variable [DecidableEq T]

@[simp] theorem lose_none (gone : T → Bool) : lose gone none = gone := by
  ext t
  simp [lose]

theorem elsewhere_lose (taken : T → Option N) (gone : T → Bool) (p : Option T) :
    elsewhere taken (lose gone p) = fun t => elsewhere taken gone t || decide (p = some t) := by
  ext t
  simp [elsewhere, lose, Bool.or_assoc]

theorem elsewhere_take (taken : T → Option N) (gone : T → Bool) (t : T) (x : N) :
    elsewhere (update taken t (some x)) gone = update (elsewhere taken gone) t true := by
  ext u
  rcases eq_or_ne u t with rfl | hu
  · simp [elsewhere]
  · simp [elsewhere, hu]

theorem elsewhere_return (taken : T → Option N) {t : T} (ht : gone t = false) :
    elsewhere (update taken t none) gone = update (elsewhere taken gone) t false := by
  ext u
  rcases eq_or_ne u t with rfl | hu
  · simp [elsewhere, ht]
  · simp [elsewhere, hu]

theorem apart_return (h : Entrusted f taken gone heap) (t : T) {u : T} (hu : gone u = true) :
    update taken t none u = none := by
  rcases eq_or_ne u t with rfl | hne
  · simp
  · rw [update_of_ne hne]; exact h.apart hu

/-- The one to whom a token was handed over gives it back. -/
theorem dispose (h : Entrusted f taken gone heap) {t : T} (ht : taken t ≠ none) :
    Entrusted f (update taken t none) gone (update heap t none) where
  toLedger := by
    rw [elsewhere_return _ (h.gone_of_taken ht)]
    exact h.freeOwn (elsewhere_of_taken gone ht)
  apart _ hu := h.apart_return t hu

variable [DecidableEq P]

theorem take_fresh (h : Entrusted f taken gone heap) {p : P} {t : T} (hp : f p = none)
    (ht : heap t = none) (c : C) :
    Entrusted (update f p (some t)) taken gone (update heap t (some c)) where
  toLedger := h.toLedger.take_fresh hp ht c
  apart := h.apart

theorem retire (h : Entrusted f taken gone heap) (p : P) :
    Entrusted (update f p none) taken gone (without heap (f p)) where
  toLedger := h.toLedger.retire p
  apart := h.apart

/-- A place forgets what it holds. -/
theorem forget (h : Entrusted f taken gone heap) (p : P) :
    Entrusted (update f p none) taken (lose gone (f p)) heap where
  toLedger := by
    rw [elsewhere_lose]
    exact h.vacate p
  apart t ht := by
    rcases Bool.or_eq_true_iff.mp ht with ht | ht
    · exact h.apart ht
    · exact h.taken_of_held (of_decide_eq_true ht)

/-- A place hands its token over. -/
theorem handOver (h : Entrusted f taken gone heap) {p : P} {t : T} (hp : f p = some t) (x : N) :
    Entrusted (update f p none) (update taken t (some x)) gone heap where
  toLedger := by
    rw [elsewhere_take]
    exact h.surrender hp
  apart u hu := by
    have hut : u ≠ t := by
      rintro rfl
      exact h.own_apart (elsewhere_of_gone taken hu) p hp
    rw [update_of_ne hut]
    exact h.apart hu

/-- An empty place gets a token, one that has just become live or one that was
handed over. -/
theorem deliver (h : Entrusted f taken gone heap) {p : P} {t : T} (hp : f p = none)
    (ht : heap t = none ∨ taken t ≠ none) (c : C) :
    Entrusted (update f p (some t)) (update taken t none) gone (update heap t (some c)) where
  toLedger := by
    rcases ht with ht | ht
    · have htaken : taken t = none := by
        by_contra hne
        exact h.own_live (elsewhere_of_taken gone hne) ht
      have hsame : update taken t none = taken := by
        rw [update_eq_self_iff]
        exact htaken.symm
      rw [hsame]
      exact h.toLedger.take_fresh hp ht c
    · have hown := elsewhere_of_taken gone ht
      have hlive := h.own_live hown
      rw [elsewhere_return _ (h.gone_of_taken ht)]
      exact (h.adopt hp hown).rewrite hlive c
  apart _ hu := h.apart_return t hu

end Rules

end Entrusted

end Entrusted

/-! ### Counting the places -/

/-- How many places hold a token. -/
noncomputable def holders (f : P → Option T) (t : T) : ℕ := {p | f p = some t}.ncard

/-- Only finitely many places hold something. -/
def FinitelyHeld (f : P → Option T) : Prop := {p | f p ≠ none}.Finite

@[simp] theorem holders_none (t : T) : holders (fun _ : P => none) t = 0 := by
  simp [holders]

theorem finitelyHeld_none : FinitelyHeld (fun _ : P => (none : Option T)) := by
  simp [FinitelyHeld]

theorem FinitelyHeld.at {f : P → Option T} (h : FinitelyHeld f) (t : T) :
    {p | f p = some t}.Finite := by
  refine h.subset fun p hp => ?_
  have hp : f p = some t := hp
  show f p ≠ none
  simp [hp]

section Holders

variable [DecidableEq P] {f : P → Option T}

theorem FinitelyHeld.update (h : FinitelyHeld f) (p : P) (x : Option T) :
    FinitelyHeld (Function.update f p x) := by
  refine (h.insert p).subset fun q hq => ?_
  by_cases hqp : q = p
  · exact .inl hqp
  · have hq : Function.update f p x q ≠ none := hq
    rw [update_of_ne hqp] at hq
    exact .inr hq

variable [DecidableEq T]

/-- A place that held nothing takes a token. -/
theorem holders_update_of_none (h : FinitelyHeld f) {p : P} (hp : f p = none) (t u : T) :
    holders (Function.update f p (some t)) u = holders f u + if u = t then 1 else 0 := by
  rcases eq_or_ne u t with rfl | hut
  · have hset : {q | Function.update f p (some u) q = some u} = insert p {q | f q = some u} := by
      ext q
      by_cases hqp : q = p <;> simp [hqp]
    rw [if_pos rfl, holders, hset, Set.ncard_insert_of_notMem (by simp [hp]) (h.at u), holders]
  · have hset : {q | Function.update f p (some t) q = some u} = {q | f q = some u} := by
      ext q
      rcases eq_or_ne q p with rfl | hqp
      · simp [hp, Ne.symm hut]
      · simp [hqp]
    rw [if_neg hut, holders, hset, holders, Nat.add_zero]

/-- A place lets go of the token it held. -/
theorem holders_update_none (h : FinitelyHeld f) {p : P} {t : T} (hp : f p = some t) (u : T) :
    holders f u = holders (Function.update f p none) u + if u = t then 1 else 0 := by
  have hsome : f = Function.update (Function.update f p none) p (some t) := by
    rw [Function.update_idem, ← hp, Function.update_eq_self]
  conv_lhs => rw [hsome]
  exact holders_update_of_none (h.update p none) (by simp) t u

end Holders

/-- Each token has been gained as often as it is held, is somebody else's, or has
been spent. -/
structure Conserved (f : P → Option T) (gained loose spent : T → ℕ) : Prop where
  finite : FinitelyHeld f
  balance : ∀ t, gained t = holders f t + loose t + spent t

namespace Conserved

variable {f : P → Option T} {gained loose spent : T → ℕ}

theorem empty : Conserved (fun _ : P => (none : Option T)) (fun _ => 0) (fun _ => 0)
    (fun _ => 0) where
  finite := finitelyHeld_none
  balance _ := by simp

variable [DecidableEq P] [DecidableEq T]

/-- An empty place gains a token. -/
theorem gain (h : Conserved f gained loose spent) {p : P} (hp : f p = none) (t : T) :
    Conserved (update f p (some t)) (update gained t (gained t + 1)) loose spent where
  finite := h.finite.update p _
  balance u := by
    rw [holders_update_of_none h.finite hp]
    rcases eq_or_ne u t with rfl | hut
    · rw [update_self, if_pos rfl, h.balance u]
      omega
    · rw [update_of_ne hut, if_neg hut, h.balance u]
      omega

/-- A place gives its token to somebody else. -/
theorem surrender (h : Conserved f gained loose spent) {p : P} {t : T} (hp : f p = some t) :
    Conserved (update f p none) gained (update loose t (loose t + 1)) spent where
  finite := h.finite.update p _
  balance u := by
    rw [h.balance u, holders_update_none h.finite hp]
    rcases eq_or_ne u t with rfl | hut
    · rw [update_self, if_pos rfl]
      omega
    · rw [update_of_ne hut, if_neg hut]
      omega

/-- An empty place takes a token from somebody else. -/
theorem adopt (h : Conserved f gained loose spent) {p : P} (hp : f p = none) {t : T}
    (ht : loose t ≠ 0) :
    Conserved (update f p (some t)) gained (update loose t (loose t - 1)) spent where
  finite := h.finite.update p _
  balance u := by
    rw [h.balance u, holders_update_of_none h.finite hp]
    rcases eq_or_ne u t with rfl | hut
    · rw [update_self, if_pos rfl]
      omega
    · rw [update_of_ne hut, if_neg hut]
      omega

/-- A place spends its token. -/
theorem spend (h : Conserved f gained loose spent) {p : P} {t : T} (hp : f p = some t) :
    Conserved (update f p none) gained loose (update spent t (spent t + 1)) where
  finite := h.finite.update p _
  balance u := by
    rw [h.balance u, holders_update_none h.finite hp]
    rcases eq_or_ne u t with rfl | hut
    · rw [update_self, if_pos rfl]
      omega
    · rw [update_of_ne hut, if_neg hut]
      omega

/-- An empty place takes what another lets go of. -/
theorem move (h : Conserved f gained loose spent) {p q : P} (hp : f p = none) :
    Conserved (update (update f p (f q)) q none) gained loose spent := by
  cases hq : f q with
  | none =>
      have hpsame : update f p none = f := by rw [← hp, update_eq_self]
      have hqsame : update f q none = f := by rw [← hq, update_eq_self]
      rwa [hpsame, hqsame]
  | some t =>
      have hne : p ≠ q := by rintro rfl; rw [hp] at hq; cases hq
      -- the token is nobody's between the two updates, and is gained and lost at once
      refine ⟨(h.finite.update p _).update q _, fun u => ?_⟩
      have hgain := holders_update_of_none h.finite hp t u
      have hlose := holders_update_none (h.finite.update p (some t)) (p := q) (t := t)
        (by rw [update_of_ne (Ne.symm hne), hq]) u
      rw [h.balance u]
      omega

omit [DecidableEq T] in
/-- Two places exchange what they hold. -/
theorem exchange (h : Conserved f gained loose spent) (p q : P) :
    Conserved (update (update f p (f q)) q (f p)) gained loose spent := by
  have hcomp : update (update f p (f q)) q (f p) = f ∘ Equiv.swap p q := by
    rw [Equiv.comp_swap_eq_update]
    rcases eq_or_ne p q with rfl | hpq
    · simp
    · exact update_comm hpq _ _ _
  have hholders (t : T) : holders (f ∘ Equiv.swap p q) t = holders f t := by
    have himage : {r | (f ∘ Equiv.swap p q) r = some t} = Equiv.swap p q '' {r | f r = some t} := by
      ext r
      constructor
      · exact fun hr => ⟨Equiv.swap p q r, hr, by simp⟩
      · rintro ⟨r', hr', rfl⟩
        simpa using hr'
    rw [holders, himage, Set.ncard_image_of_injective _ (Equiv.injective _), holders]
  rw [hcomp]
  refine ⟨?_, fun t => by rw [hholders, h.balance t]⟩
  rw [← hcomp]
  exact (h.finite.update p _).update q _

end Conserved

end Nngpp.Lib
