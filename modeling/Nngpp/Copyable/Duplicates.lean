import Nngpp.Copyable.Classes
import Nngpp.Copyable.Journal

/-!
Copies of messages and of URLs.

A copy is right when nng was asked what it may be asked, and when the two objects
are afterwards alike and apart. By `duplicates_faithful_iff` that is so exactly
when there is something to copy: neither class looks whether its source is null
before it asks nng for a copy of it, whereas the moves and the destructors do
look.
-/

namespace Nngpp.Copyable

open Function Lib

variable {O H C X : Type}

/-! ### The two ways to copy -/

/-- `msg this(rhs);` and `this = rhs;`. -/
inductive Copy (O : Type)
  | ctor (this rhs : O)
  | assign (this rhs : O)

namespace Copy

def this : Copy O → O
  | ctor this _ | assign this _ => this

def rhs : Copy O → O
  | ctor _ rhs | assign _ rhs => rhs

end Copy

/-- nng is asked to free the handle. -/
def Asked.frees [DecidableEq H] (h : H) : Asked H → Bool
  | free g _ => g = h
  | dup _ _ => false

variable [DecidableEq O] [DecidableEq H]

namespace Copy

def call (n : Names) (c : Copy O) (ans : Answer H) : Journal.Call O H C Unit :=
  match c with
  | ctor this rhs => Journal.copyCtor n this rhs ans
  | assign this rhs => Journal.copyAssign n this rhs ans

/-- The copy may be made: a new object, or one that exists, from one that exists.
Given a live handle, nng succeeds, with a handle that is fresh by then. -/
def Allowed (w : World O H C) (c : Copy O) (ans : Answer H) : Prop :=
  (match c with
    | ctor this _ => w.obj this = none
    | assign this _ => w.obj this ≠ none) ∧
  w.obj c.rhs ≠ none ∧
  (∀ h, ans = .ok h → (w.freeIf (Pointer.get w.obj c.this)).heap h = none) ∧
  (Pointer.get w.obj c.rhs ≠ none → ∃ h, ans = .ok h)

end Copy

/-- A copy of `rhs` as it should be: what nng was asked on the way from `w` to
`w'`, and how the objects are then. -/
structure Duplicated (K : Class O H C X) (w w' : World O H C) (asked : List (Asked H))
    (this rhs : O) : Prop where
  proper : ∀ q ∈ asked, q.Proper
  null_iff : Pointer.get w'.obj this = none ↔ Pointer.get w.obj rhs = none
  contents : (w'.shown this).2 = (w.shown rhs).2
  /-- The handle is no other object's, and nobody had it before, but for the one
  that the object has just freed. -/
  distinct : ∀ h, Pointer.get w'.obj this = some h →
    (∀ o, o ≠ this → Pointer.get w'.obj o ≠ some h) ∧
    (this ≠ rhs → w.heap h = none ∨ Pointer.get w.obj this = some h)
  /-- The source and all other objects are unchanged. -/
  unchanged : ∀ o, o ≠ this ∨ o = rhs → w'.obj o = w.obj o ∧ w'.shown o = w.shown o
  freed : ∀ h, asked.countP (Asked.frees h) =
    if this ≠ rhs ∧ Pointer.get w.obj this = some h then 1 else 0
  /-- Members called on other objects never show in an object. -/
  independent : ∀ {tr w''}, Run K.Step w' tr w'' → ∀ o,
    (∀ e ∈ tr, ∃ p x, e.label = .member p x ∧ o ≠ p) → w''.shown o = w'.shown o

/-- The copy returns, and is as it should be. -/
def Copy.Faithful (K : Class O H C X) (w : World O H C) (c : Copy O) (ans : Answer H) : Prop :=
  ∃ w' asked, (c.call K.names ans).run ⟨w, []⟩ = .ok () ⟨w', asked⟩ ∧
    Duplicated K w w' asked c.this c.rhs

/-! ### What a copy does -/

/-- The world after a copy between two objects which nng grants. A new object has
nothing to free. -/
def World.duplicate (w : World O H C) (this rhs : O) (h : H) : World O H C :=
  let v := w.freeIf (Pointer.get w.obj this)
  { v with
    heap := update v.heap h ((Pointer.get w.obj rhs).bind v.heap)
    obj := update w.obj this (some (some h)) }

/-- What nng is asked then. -/
def World.askedDuplicate (w : World O H C) (this rhs : O) : List (Asked H) :=
  Journal.askedFree w (Pointer.get w.obj this) ++
    [.dup (Pointer.get w.obj rhs)
      ((Pointer.get w.obj rhs).bind (w.freeIf (Pointer.get w.obj this)).heap).isSome]

section Runs

variable {w : World O H C} {c : Copy O}

theorem Copy.run_ok (n : Names) {h : H} (hc : c.Allowed w (.ok h)) (hne : c.this ≠ c.rhs) :
    (c.call n (.ok h)).run ⟨w, []⟩ =
      .ok () ⟨w.duplicate c.this c.rhs h, w.askedDuplicate c.this c.rhs⟩ := by
  cases c with
  | ctor this rhs =>
      have hnull : Pointer.get w.obj this = none := by
        have hthis : w.obj this = none := hc.1
        simp [Pointer.get, hthis]
      have hrun := Journal.run_copyCtor_ok n w (Ne.symm hne) h
      rw [leaves_copyCtor_ok n w (Ne.symm hne)] at hrun
      simpa [Copy.call, Copy.this, Copy.rhs, World.duplicate, World.askedDuplicate, hnull, World.freeIf,
        Journal.askedFree] using hrun
  | assign this rhs =>
      have hrun := Journal.run_copyAssign_ok n w hne h
      rw [leaves_copyAssign_ok n w hne] at hrun
      simpa [Copy.call, Copy.this, Copy.rhs, World.duplicate, World.askedDuplicate,
        World.freeIf_obj] using hrun

theorem Copy.run_error (n : Names) (w : World O H C) (hne : c.this ≠ c.rhs) (e : Failure) :
    ∃ x j, (c.call n (.error e)).run ⟨w, []⟩ = .error x j := by
  cases c with
  | ctor this rhs => exact ⟨_, Journal.run_copyCtor_error n w this rhs e⟩
  | assign this rhs => exact ⟨_, Journal.run_copyAssign_error n w hne e⟩

end Runs

/-! ### A copy of something -/

section Something

variable {w : World O H C} {this rhs : O} {h src : H}

omit [DecidableEq O] in
theorem World.heap_freeIf_of_ne {p : Option H} {g : H} (hg : p ≠ some g) :
    (w.freeIf p).heap g = w.heap g := by
  cases p with
  | none => rfl
  | some f =>
      have hne : g ≠ f := by rintro rfl; exact hg rfl
      simp only [World.freeIf, World.free]
      split
      · rfl
      · exact update_of_ne hne _ w.heap

omit [DecidableEq O] in
/-- What other objects have is not freed. -/
theorem Sound.heap_freeIf (hw : Sound w) {o : O} (ho : o ≠ this) {g : H}
    (hg : Pointer.get w.obj o = some g) :
    (w.freeIf (Pointer.get w.obj this)).heap g = w.heap g :=
  World.heap_freeIf_of_ne (hw.custody.not_held_elsewhere hg (Ne.symm ho))

theorem Sound.duplicate (hw : Sound w) (hne : this ≠ rhs) (hsrc : Pointer.get w.obj rhs = some src)
    (hfresh : (w.freeIf (Pointer.get w.obj this)).heap h = none) :
    Sound (w.duplicate this rhs h) := by
  obtain ⟨hcustody, hfaults⟩ := hw.freeOwn this
  obtain ⟨c, hc⟩ := Option.ne_none_iff_exists'.mp (hw.custody.live hsrc)
  rw [← hw.heap_freeIf (Ne.symm hne) hsrc] at hc
  have htake := hcustody.take_fresh (p := this) hfresh c
  refine ⟨?_, hfaults⟩
  simpa [World.duplicate, hsrc, hc] using htake

/-- What other objects show is not touched by the fresh handle either. -/
theorem Sound.shown_duplicate (hw : Sound w)
    (hfresh : (w.freeIf (Pointer.get w.obj this)).heap h = none)
    {o : O} (ho : o ≠ this) : (w.duplicate this rhs h).shown o = w.shown o := by
  have hget : Pointer.get (w.duplicate this rhs h).obj o = Pointer.get w.obj o := by
    simp [World.duplicate, ho]
  rw [World.shown, World.shown, hget]
  cases hp : Pointer.get w.obj o with
  | none => rfl
  | some g =>
      have hkept := hw.heap_freeIf ho hp
      have hgh : g ≠ h := by
        rintro rfl
        rw [hkept] at hfresh
        exact hw.custody.live hp hfresh
      have hheap : (w.duplicate this rhs h).heap g = w.heap g := by
        rw [← hkept]
        exact update_of_ne hgh _ _
      rw [Option.bind_some, Option.bind_some, hheap]

omit [DecidableEq O] in
theorem Sound.asked_proper (hw : Sound w) (hne : this ≠ rhs)
    (hsrc : Pointer.get w.obj rhs = some src) : ∀ q ∈ w.askedDuplicate this rhs, q.Proper := by
  intro q hq
  obtain hq | hq := List.mem_append.mp hq
  · cases hp : Pointer.get w.obj this with
    | none =>
        rw [hp] at hq
        cases hq
    | some g =>
        rw [hp] at hq
        obtain rfl := List.mem_singleton.mp hq
        exact Option.isSome_iff_ne_none.mpr (hw.custody.live hp)
  · obtain rfl := List.mem_singleton.mp hq
    refine ⟨by simp [hsrc], ?_⟩
    rw [hsrc, Option.bind_some, hw.heap_freeIf (Ne.symm hne) hsrc]
    exact Option.isSome_iff_ne_none.mpr (hw.custody.live hsrc)

theorem countP_askedDuplicate (w : World O H C) (hne : this ≠ rhs) (g : H) :
    (w.askedDuplicate this rhs).countP (Asked.frees g) =
      if this ≠ rhs ∧ Pointer.get w.obj this = some g then 1 else 0 := by
  cases hp : Pointer.get w.obj this with
  | none => simp [World.askedDuplicate, hp, Journal.askedFree, Asked.frees]
  | some f =>
      rcases eq_or_ne f g with rfl | hfg
      · simp [World.askedDuplicate, hp, Journal.askedFree, Asked.frees, hne]
      · simp [World.askedDuplicate, hp, Journal.askedFree, Asked.frees, hfg]

theorem duplicated (K : Class O H C X) (hw : Sound w) (hne : this ≠ rhs)
    (hsrc : Pointer.get w.obj rhs = some src)
    (hfresh : (w.freeIf (Pointer.get w.obj this)).heap h = none) :
    Duplicated K w (w.duplicate this rhs h) (w.askedDuplicate this rhs) this rhs := by
  have hsound := hw.duplicate hne hsrc hfresh
  have hthis : Pointer.get (w.duplicate this rhs h).obj this = some h := by
    simp [World.duplicate]
  refine ⟨hw.asked_proper hne hsrc, ?_, ?_, ?_, ?_, countP_askedDuplicate w hne, ?_⟩
  · simp [hthis, hsrc]
  · rw [World.shown, World.shown, hthis, hsrc, Option.bind_some, Option.bind_some,
      ← hw.heap_freeIf (Ne.symm hne) hsrc]
    simp [World.duplicate, hsrc]
  · intro g hg
    obtain rfl : h = g := Option.some.inj (hthis.symm.trans hg)
    refine ⟨fun o ho => hsound.custody.not_held_elsewhere hthis ho, fun _ => ?_⟩
    rcases eq_or_ne (Pointer.get w.obj this) (some h) with hown | hother
    · exact .inr hown
    · exact .inl (by rwa [World.heap_freeIf_of_ne hother] at hfresh)
  · intro o ho
    have hother : o ≠ this := by
      rintro rfl
      exact ho.elim (fun h => h rfl) hne
    exact ⟨update_of_ne hother _ w.obj, hw.shown_duplicate hfresh hother⟩
  · intro tr w'' run o ho
    exact shown_run K hsound run ho

/-- An assignment to itself asks nothing and does nothing. -/
theorem duplicated_self (K : Class O H C X) (hw : Sound w) (this : O) :
    Duplicated K w w [] this this := by
  refine ⟨nofun, .rfl, rfl, ?_, fun _ _ => ⟨rfl, rfl⟩, fun _ => by simp, ?_⟩
  · intro h hthis
    exact ⟨fun o ho => hw.custody.not_held_elsewhere hthis ho, fun hne => absurd rfl hne⟩
  · intro tr w'' run o ho
    exact shown_run K hw run ho

end Something

/-! ### When a copy is faithful -/

theorem Copy.faithful_iff (K : Class O H C X) {w : World O H C} (hw : Sound w) {c : Copy O}
    {ans : Answer H} (hc : c.Allowed w ans) :
    c.Faithful K w ans ↔ c.this = c.rhs ∨ Pointer.get w.obj c.rhs ≠ none := by
  rcases eq_or_ne c.this c.rhs with hself | hne
  · refine iff_of_true ?_ (.inl hself)
    obtain ⟨hthis, hrhs, -, -⟩ := hc
    cases c with
    | ctor this rhs =>
        obtain rfl : this = rhs := hself
        exact absurd hthis hrhs
    | assign this rhs =>
        obtain rfl : this = rhs := hself
        exact ⟨w, [], Journal.run_copyAssign_self K.names w this ans, duplicated_self K hw this⟩
  constructor
  · rintro ⟨w', asked, hrun, hdup⟩
    refine .inr fun hnull => ?_
    cases ans with
    | error e =>
        obtain ⟨x, j, hthrow⟩ := Copy.run_error K.names w hne e
        rw [hrun] at hthrow
        cases hthrow
    | ok h =>
        rw [Copy.run_ok K.names hc hne] at hrun
        cases hrun
        -- the last thing nng was asked is a copy of nothing
        have hproper := hdup.proper _ (List.mem_append_right _ (List.mem_singleton_self _))
        exact hproper.1 hnull
  · rintro (hself | hsome)
    · exact absurd hself hne
    · obtain ⟨src, hsrc⟩ := Option.ne_none_iff_exists'.mp hsome
      obtain ⟨h, rfl⟩ := hc.2.2.2 hsome
      exact ⟨_, _, Copy.run_ok K.names hc hne, duplicated K hw hne hsrc (hc.2.2.1 h rfl)⟩

/-- In whatever state a program has brought its messages, or its URLs, a copy is
faithful exactly when its source is not null, or when an object is assigned to
itself. -/
theorem duplicates_faithful_iff {w : World O H Msg.Message} {v : World O H C}
    (hw : msgClass.Reachable w) (hv : urlClass.Reachable v) :
    (∀ (c : Copy O) (ans : Answer H), c.Allowed w ans →
      (c.Faithful msgClass w ans ↔ c.this = c.rhs ∨ Pointer.get w.obj c.rhs ≠ none)) ∧
    ∀ (c : Copy O) (ans : Answer H), c.Allowed v ans →
      (c.Faithful urlClass v ans ↔ c.this = c.rhs ∨ Pointer.get v.obj c.rhs ≠ none) :=
  ⟨fun _ _ hc => Copy.faithful_iff msgClass hw.sound hc,
    fun _ _ hc => Copy.faithful_iff urlClass hv.sound hc⟩

/-- A message with a header and a body is made; a second one, also made, is sent. -/
def sendOne : List (Act ℕ ℕ Msg.Message MsgMember) :=
  [.op (.acquire 0 (.ok (1, ⟨[1], [2, 3]⟩))), .op (.acquire 1 (.ok (2, ⟨[], [4]⟩))),
    .member 1 (.send .success)]

/-- A URL is parsed; a second one, also parsed, is moved to a new object. -/
def moveOne : List (Act ℕ ℕ String Empty) :=
  [.op (.acquire 0 (.ok (1, "tcp://host:80"))), .op (.acquire 1 (.ok (2, "inproc://x"))),
    .op (.moveCtor 2 1)]

def sentOne : World ℕ ℕ Msg.Message := sendOne.foldl msgClass.exec (World.init fun _ => none)

def movedOne : World ℕ ℕ String := moveOne.foldl urlClass.exec (World.init fun _ => none)

theorem reachable_sentOne : msgClass.Reachable sentOne := by
  have allowed : Run.AllEnabled msgClass.Enabled msgClass.exec
      (World.init fun _ => none) sendOne :=
    ⟨⟨⟨rfl, by rintro h c ⟨⟩; rfl⟩, trivial⟩, ⟨⟨rfl, by rintro h c ⟨⟩; rfl⟩, trivial⟩,
      ⟨nofun, fun _ => nofun⟩, trivial⟩
  exact ⟨_, _, Run.of_exec allowed⟩

theorem reachable_movedOne : urlClass.Reachable movedOne := by
  have allowed : Run.AllEnabled urlClass.Enabled urlClass.exec
      (World.init fun _ => none) moveOne :=
    ⟨⟨⟨rfl, by rintro h c ⟨⟩; rfl⟩, trivial⟩, ⟨⟨rfl, by rintro h c ⟨⟩; rfl⟩, trivial⟩,
      ⟨⟨rfl, nofun⟩, trivial⟩, trivial⟩
  exact ⟨_, _, Run.of_exec allowed⟩

/-- What is left of the messages, or the URLs, is copied. -/
theorem duplicates_faithful_one :
    (Copy.assign 1 0).Faithful msgClass sentOne (.ok 3) ∧
      (Copy.ctor 3 2).Faithful urlClass movedOne (.ok 3) := by
  have hmsg : (Copy.assign 1 0).Allowed sentOne (.ok 3) :=
    ⟨nofun, nofun, by rintro h ⟨⟩; rfl, fun _ => ⟨_, rfl⟩⟩
  have hurl : (Copy.ctor 3 2).Allowed movedOne (.ok 3) :=
    ⟨rfl, nofun, by rintro h ⟨⟩; rfl, fun _ => ⟨_, rfl⟩⟩
  obtain ⟨hiff, hiff'⟩ := duplicates_faithful_iff reachable_sentOne reachable_movedOne
  exact ⟨(hiff _ _ hmsg).mpr (.inr nofun), (hiff' _ _ hurl).mpr (.inr nofun)⟩

/-- When the message that was sent is assigned to the other, nng is asked to free
the handle of that one and then for a copy of nothing; and so when the URL that
was moved from is. -/
theorem duplicates_of_null :
    (msgClass.Reachable sentOne ∧ (Copy.assign 0 1).Allowed sentOne (.ok 3) ∧
      (∃ w, ((Copy.assign 0 1).call msgNames (.ok 3)).run ⟨sentOne, []⟩ =
        .ok () ⟨w, [.free 1 true, .dup none false]⟩) ∧
      ¬ (Copy.assign 0 1).Faithful msgClass sentOne (.ok 3)) ∧
    urlClass.Reachable movedOne ∧ (Copy.ctor 3 1).Allowed movedOne (.ok 3) ∧
      (∃ w, ((Copy.ctor 3 1).call urlNames (.ok 3)).run ⟨movedOne, []⟩ =
        .ok () ⟨w, [.dup none false]⟩) ∧
      ¬ (Copy.ctor 3 1).Faithful urlClass movedOne (.ok 3) := by
  have hmsg : (Copy.assign 0 1).Allowed sentOne (.ok 3) :=
    ⟨nofun, nofun, by rintro h ⟨⟩; rfl, fun _ => ⟨_, rfl⟩⟩
  have hurl : (Copy.ctor 3 1).Allowed movedOne (.ok 3) :=
    ⟨rfl, nofun, by rintro h ⟨⟩; rfl, fun _ => ⟨_, rfl⟩⟩
  refine ⟨⟨reachable_sentOne, hmsg, ⟨_, Copy.run_ok msgNames hmsg nofun⟩, ?_⟩,
    reachable_movedOne, hurl, ⟨_, Copy.run_ok urlNames hurl nofun⟩, ?_⟩
  · rw [Copy.faithful_iff msgClass reachable_sentOne.sound hmsg]
    rintro (hself | hsome)
    · cases hself
    · exact hsome rfl
  · rw [Copy.faithful_iff urlClass reachable_movedOne.sound hurl]
    rintro (hself | hsome)
    · cases hself
    · exact hsome rfl

end Nngpp.Copyable
