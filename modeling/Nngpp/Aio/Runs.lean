import Nngpp.Aio.Ownership

/-!
Runs with any number of messages, aios, sockets and contexts.

A step keeps the books if what it loses is written down, and what it can lose is
read off `lost`: the message that `set_msg` or a successful receive finds in the
slot, and the message in the slot of an aio that is freed.
-/

namespace Nngpp.Aio

open Function Lib

variable {O M B A : Type}

/-! ### Steps -/

theorem cell_of_idle {w : World O M B A} {a : A} (h : w.Idle a) : w.cell a ≠ none := by
  obtain ⟨c, hc, -⟩ := h
  simp [hc]

theorem cell_of_busy {w : World O M B A} {a : A} {op : Pending} (h : w.Busy a op) :
    w.cell a ≠ none := by
  obtain ⟨c, hc, -⟩ := h
  simp [hc]

variable [DecidableEq A]

theorem setSlot_setSlot (w : World O M B A) (a : A) (p q : Option M) :
    (w.setSlot a p).setSlot a q = w.setSlot a q := by
  simp [World.setSlot, Function.comp_def]

theorem cell_setSlot {w : World O M B A} {a : A} (ha : w.cell a ≠ none) (p : Option M) :
    (w.setSlot a p).cell a ≠ none := by
  simpa [World.setSlot] using ha

theorem cell_setOp {w : World O M B A} {a : A} (ha : w.cell a ≠ none) (op : Option Pending) :
    (w.setOp a op).cell a ≠ none := by
  simpa [World.setOp] using ha

variable [DecidableEq O] [DecidableEq M] [DecidableEq B]

namespace Books

variable {w : World O M B A} {gone : M → Bool}

theorem exec_setMsg (h : Books w gone) {a : A} (ha : w.cell a ≠ none) (m : O) :
    Books (exec w (.setMsg a m)) (lose gone (w.slot a)) := by
  have hslot : (w.setSlot a none).slot a = none := by rw [slot_setSlot ha, update_self]
  have hput := (h.empty_slot ha).object_to_slot (cell_setSlot ha none) hslot m
  have hexec : exec w (.setMsg a m) =
      ({ w with msg := update w.msg m (some none) } : World O M B A).setSlot a
        (Pointer.get w.msg m) := rfl
  rw [hexec, ← setSlot_setSlot _ a none]
  exact hput

theorem exec_releaseMsg (h : Books w gone) {a : A} (ha : w.cell a ≠ none) {out : O}
    (hout : w.msg out = none) : Books (exec w (.releaseMsg a out)) gone :=
  h.slot_to_object ha (by simp [Pointer.get, hout])

theorem exec_sendDone (h : Books w gone) (x : Endpoint) (a : A) (r : Error) :
    Books (exec w (.sendDone x a r)) gone := by
  show Books (w.sendDone x a r) gone
  rw [World.sendDone]
  split
  · cases hm : w.slot a with
    | none => exact h.setOp a none
    | some m =>
        have hslot : (w.setOp a none).slot a = some m := by rw [slot_setOp, hm]
        exact (h.setOp a none).slot_to_nng hslot x
  · exact h.setOp a none

theorem exec_recvDone (h : Books w gone) {x : Endpoint} {a : A} (ha : w.cell a ≠ none)
    {ans : Answer M} (hans : ∀ m, ans = .ok m → w.heap m = none ∨ w.taken m ≠ none) :
    Books (exec w (.recvDone x a ans)) (lose gone (lost w (.recvDone x a ans))) := by
  show Books (w.recvDone a ans) _
  cases ans with
  | error e =>
      show Books (w.setOp a none) (lose gone none)
      rw [Entrusted.lose_none]
      exact h.setOp a none
  | ok m =>
      have hop := cell_setOp ha none
      have hempty := (h.setOp a none).empty_slot hop
      have hslot : ((w.setOp a none).setSlot a none).slot a = none := by
        rw [slot_setSlot hop, update_self]
      have hput := hempty.nng_to_slot (cell_setSlot hop none) hslot (hans m rfl)
      rw [setSlot_setSlot, slot_setOp] at hput
      exact hput

theorem exec_aioMoveAssign (h : Books w gone) (this rhs : B) :
    Books (exec w (.aioMoveAssign this rhs)) (lose gone (lost w (.aioMoveAssign this rhs))) := by
  rcases eq_or_ne this rhs with rfl | hne
  · have hexec : exec w (.aioMoveAssign this this) = w := by
      simp [exec, leaves, Op.call, aioMoveAssign, World.freeAio]
    have hlost : lost w (.aioMoveAssign this this) = none := if_neg (by simp)
    rwa [hexec, hlost, Entrusted.lose_none]
  · have hexec : exec w (.aioMoveAssign this rhs) =
        World.freeAio { w with aio := (Pointer.moveAssign w.aio this rhs).1 }
          (Pointer.get w.aio this) := by
      simp [exec, leaves, Op.call, aioMoveAssign, Pointer.moveAssign_of_ne w.aio hne]
    have hlost : lost w (.aioMoveAssign this rhs) = (Pointer.get w.aio this).bind w.slot :=
      if_pos hne
    rw [hexec, hlost, h.freeAio_eq]
    apply h.aio_retire
    have hmove := (h.aios.retire this).move hne
    rw [update_idem, update_of_ne hne.symm] at hmove
    simpa [Pointer.moveAssign_of_ne w.aio hne] using hmove

theorem exec_aioDestroy (h : Books w gone) (this : B) :
    Books (exec w (.aioDestroy this)) (lose gone (lost w (.aioDestroy this))) := by
  show Books (World.freeAio { w with aio := update w.aio this none } (Pointer.get w.aio this)) _
  rw [h.freeAio_eq]
  apply h.aio_retire
  rw [Pointer.get_update]
  exact h.aios.retire this

omit [DecidableEq A] [DecidableEq O] in
/-- A step that loses nothing keeps the books as they are. -/
theorem of_lost_none {op : Op O M B A} {w' : World O M B A} (hlost : lost w op = none)
    (h : Books w' gone) : Books w' (lose gone (lost w op)) := by
  rwa [hlost, Entrusted.lose_none]

theorem exec_msgAlloc (h : Books w gone) {this : O} (hthis : w.msg this = none) {ans : Answer M}
    (hans : ∀ m, ans = .ok m → w.heap m = none) : Books (exec w (.msgAlloc this ans)) gone := by
  cases ans with
  | error e => exact h
  | ok m => exact h.object_fresh (by simp [Pointer.get, hthis]) (hans m rfl)

theorem exec_aioAlloc (h : Books w gone) {this : B} {ans : Answer A}
    (hans : ∀ a, ans = .ok a → w.cell a = none) : Books (exec w (.aioAlloc this ans)) gone := by
  cases ans with
  | error e => exact h
  | ok a => exact h.aio_fresh (hans a rfl) this

/-- A step keeps the books, once what it loses is written down. -/
theorem step (h : Books w gone) {op : Op O M B A} {w' : World O M B A} (hstep : Step w op w') :
    Books w' (lose gone (lost w op)) := by
  obtain ⟨hop, rfl⟩ := hstep
  have hnone : ∀ {o : O}, w.msg o = none → Pointer.get w.msg o = none := by
    intro o ho
    simp [Pointer.get, ho]
  cases op with
  | msgDefault this => exact of_lost_none rfl (h.object_none (hnone hop) rfl)
  | msgAlloc this ans => exact of_lost_none rfl (h.exec_msgAlloc hop.1 hop.2)
  | msgMoveCtor this rhs =>
      have hne : this ≠ rhs := by
        rintro rfl
        exact hop.2 hop.1
      exact of_lost_none rfl (h.object_move hne (hnone hop.1))
  | msgMoveAssign this rhs => exact of_lost_none rfl (h.leaves_msgMoveAssign this rhs)
  | msgDestroy this =>
      apply of_lost_none rfl
      show Books (World.freeMsg { w with msg := update w.msg this none } (Pointer.get w.msg this)) _
      rw [h.freeMsg_eq]
      exact h.object_retire this rfl
  | aioDefault this =>
      exact of_lost_none rfl (h.aio_table (Pointer.custody_default h.aios this))
  | aioAlloc this ans => exact of_lost_none rfl (h.exec_aioAlloc hop.2)
  | aioMoveCtor this rhs =>
      have hne : this ≠ rhs := by
        rintro rfl
        exact hop.2 hop.1
      exact of_lost_none rfl (h.aio_table (Pointer.custody_moveCtor h.aios hne))
  | aioMoveAssign this rhs => exact h.exec_aioMoveAssign this rhs
  | aioDestroy this => exact h.exec_aioDestroy this
  | setMsg a m => exact h.exec_setMsg (cell_of_idle hop.1) m
  | getMsg a => exact of_lost_none rfl h
  | releaseMsg a out => exact of_lost_none rfl (h.exec_releaseMsg (cell_of_idle hop.1) hop.2)
  | send x a => exact of_lost_none rfl (h.setOp a _)
  | recv x a => exact of_lost_none rfl (h.setOp a _)
  | sendDone x a r => exact of_lost_none rfl (h.exec_sendDone x a r)
  | recvDone x a ans => exact h.exec_recvDone (cell_of_busy hop.1) hop.2
  | dispose m => exact of_lost_none rfl (h.dispose hop)

end Books

/-! ### Runs -/

omit [DecidableEq A] [DecidableEq O] [DecidableEq M] [DecidableEq B] in
theorem books_init (taken : M → Option Endpoint) :
    Books (World.init taken : World O M B A) fun _ => false where
  messages := by
    have hheld : (World.init taken : World O M B A).held = fun _ => none := by
      ext p : 1
      cases p <;> rfl
    rw [hheld]
    exact Entrusted.empty taken fun _ => ()
  aios := Custody.empty _
  msgFaults := rfl
  aioFaults := rfl

/-- At every moment some books are kept. -/
def Kept (w : World O M B A) : Prop := ∃ gone, Books w gone

theorem Kept.step {w w' : World O M B A} {op : Op O M B A} (h : Kept w) (hstep : Step w op w') :
    Kept w' := by
  obtain ⟨gone, hbooks⟩ := h
  exact ⟨_, hbooks.step hstep⟩

/-- The strays after a step are those before it and the message it lost. -/
theorem Kept.stray_step {w w' : World O M B A} {op : Op O M B A} (h : Kept w)
    (hstep : Step w op w') (m : M) : w'.Stray m ↔ w.Stray m ∨ lost w op = some m := by
  obtain ⟨gone, hbooks⟩ := h
  rw [hbooks.stray_iff, (hbooks.step hstep).stray_iff]
  simp [lose]

/-- The steps that put a message into the slot of an aio. -/
def Fills (a : A) : Op O M B A → Prop
  | .setMsg b _ => b = a
  | .recvDone _ b (.ok _) => b = a
  | _ => False

section Slot

variable {w : World O M B A} {a b : A}

omit [DecidableEq A] [DecidableEq O] [DecidableEq B] in
theorem slot_freeMsg (p : Option M) : (w.freeMsg p).slot = w.slot := by
  cases p with
  | none => rfl
  | some m =>
      rw [World.freeMsg]
      split <;> rfl

omit [DecidableEq O] [DecidableEq M] [DecidableEq B]

theorem slot_setSlot_of_ne (h : a ≠ b) (p : Option M) : (w.setSlot b p).slot a = w.slot a := by
  simp [World.slot, World.setSlot, h]

theorem slot_setSlot_none (h : w.slot a = none) : (w.setSlot b none).slot a = none := by
  rcases eq_or_ne a b with rfl | hne
  · simp [World.slot, World.setSlot]
  · rw [slot_setSlot_of_ne hne, h]

theorem slot_freeAio (h : w.slot a = none) (p : Option A) : (w.freeAio p).slot a = none := by
  cases p with
  | none => exact h
  | some b =>
      rw [World.freeAio]
      split
      · exact h
      · rcases eq_or_ne a b with rfl | hne
        · simp [World.slot]
        · simpa [World.slot, hne] using h

end Slot

/-- An empty slot stays empty until something is put there. -/
theorem slot_none_step {w w' : World O M B A} {a : A} {op : Op O M B A} (h : w.slot a = none)
    (hfill : ¬ Fills a op) (hstep : Step w op w') : w'.slot a = none := by
  obtain ⟨-, rfl⟩ := hstep
  cases op with
  | msgAlloc this ans => cases ans <;> exact h
  | msgMoveAssign this rhs =>
      show World.slot (World.freeMsg { w with msg := _ } _) a = none
      rw [slot_freeMsg]
      exact h
  | msgDestroy this =>
      show World.slot (World.freeMsg { w with msg := _ } _) a = none
      rw [slot_freeMsg]
      exact h
  | aioAlloc this ans =>
      cases ans with
      | error e => exact h
      | ok b =>
          show Option.bind (update w.cell b (some ⟨none, none⟩) a) Cell.slot = none
          rcases eq_or_ne a b with rfl | hne
          · simp
          · rw [update_of_ne hne]
            exact h
  | aioMoveAssign this rhs =>
      show World.slot (World.freeAio { w with aio := _ } _) a = none
      apply slot_freeAio
      exact h
  | aioDestroy this =>
      show World.slot (World.freeAio { w with aio := _ } _) a = none
      apply slot_freeAio
      exact h
  | setMsg b m =>
      have hb : a ≠ b := fun hab => hfill hab.symm
      exact (slot_setSlot_of_ne (w := { w with msg := _ }) hb _).trans h
  | releaseMsg b out => exact slot_setSlot_none h
  | send x b => exact (congrFun (slot_setOp w b _) a).trans h
  | recv x b => exact (congrFun (slot_setOp w b _) a).trans h
  | sendDone x b r =>
      have hop : (w.setOp b none).slot a = none := by rw [slot_setOp, h]
      show World.slot (w.sendDone x b r) a = none
      rw [World.sendDone]
      split
      · split
        · exact slot_setSlot_none hop
        · exact hop
      · exact hop
  | recvDone x b ans =>
      have hop : (w.setOp b none).slot a = none := by rw [slot_setOp, h]
      cases ans with
      | error e => exact hop
      | ok m =>
          have hb : a ≠ b := fun hab => hfill hab.symm
          exact (slot_setSlot_of_ne hb _).trans hop
  | _ => exact h

theorem slot_none_run {w w' : World O M B A} {a : A} {tr : List (Transition (World O M B A) _)}
    (run : Run Step w tr w') (h : w.slot a = none) (hfill : ∀ e ∈ tr, ¬ Fills a e.label) :
    w'.slot a = none := by
  refine run.guarded (I := fun v => v.slot a = none) h ?_ hfill
  intro v op v' hv hstep hok
  exact slot_none_step hv hok hstep

/-- `release_msg()` moves what is in the slot, which it leaves empty. -/
theorem releaseMsg_spec {w w' : World O M B A} {a : A} {out : O}
    (hstep : Step w (.releaseMsg a out) w') :
    w'.msg out = some (w.slot a) ∧ w'.slot a = none := by
  obtain ⟨⟨hidle, -⟩, rfl⟩ := hstep
  constructor
  · exact update_self out _ w.msg
  · show (w.setSlot a none).slot a = none
    rw [slot_setSlot (cell_of_idle hidle), update_self]

/-- What is live and nowhere at the end of a run is what the run has lost. -/
theorem lost_of_run {taken : M → Option Endpoint} {w : World O M B A}
    {tr : List (Transition (World O M B A) _)} (run : Run Step (World.init taken) tr w) (m : M) :
    w.Stray m ↔ ∃ e ∈ tr, lost e.pre e.label = some m := by
  induction run with
  | nil =>
      rw [(books_init taken).stray_iff]
      simp
  | snoc run hstep ih =>
      have hkept : Kept _ := run.invariant ⟨_, books_init taken⟩ fun _ _ _ h hs => h.step hs
      rw [hkept.stray_step hstep m, ih]
      simp only [List.mem_append, List.mem_singleton, or_and_right, exists_or, exists_eq_left]

/-- In every run, from a world where whatever is live is nng's: a message that is
somewhere is live and nowhere else; nothing is freed while it is not live;
`release_msg()` gives the new object just what is in the slot, and gives a null
object when nothing was put there since the last one; and the live messages that
are nowhere are those that a `set_msg` or a successful receive found in the slot,
or that were in the slot of an aio when it was freed. -/
theorem messages_accounted (taken : M → Option Endpoint) {w : World O M B A}
    {tr : List (Transition (World O M B A) (Op O M B A))}
    (run : Run Step (World.init taken) tr w) :
    (∀ e ∈ tr, ∀ m p, e.post.At p m → e.post.heap m ≠ none ∧ ∀ q, e.post.At q m → p = q) ∧
    (∀ e ∈ tr, e.post.msgFaults = [] ∧ e.post.aioFaults = []) ∧
    (∀ e ∈ tr, ∀ a out, e.label = .releaseMsg a out →
      e.post.msg out = some (e.pre.slot a) ∧ e.post.slot a = none) ∧
    (∀ a out₁ out₂ w₁ w₂ w₃ tr', Step w (.releaseMsg a out₁) w₁ → Run Step w₁ tr' w₂ →
      (∀ e ∈ tr', ¬ Fills a e.label) → Step w₂ (.releaseMsg a out₂) w₃ →
      w₃.msg out₂ = some none) ∧
    (∀ m, w.Stray m ↔ ∃ e ∈ tr, lost e.pre e.label = some m) := by
  have hall : ∀ e ∈ tr, Kept e.post ∧ Step e.pre e.label e.post := by
    intro e he
    obtain ⟨hpre, hstep⟩ := run.of_mem (I := Kept) ⟨_, books_init taken⟩ (fun _ _ _ h => h.step) he
    exact ⟨hpre.step hstep, hstep⟩
  refine ⟨fun e he m p hp => ?_, fun e he => ?_, fun e he a out hlabel => ?_, ?_, lost_of_run run⟩
  · obtain ⟨⟨gone, hbooks⟩, -⟩ := hall e he
    exact ⟨hbooks.heap_ne_none hp, fun q hq => hbooks.at_unique hp hq⟩
  · obtain ⟨⟨gone, hbooks⟩, -⟩ := hall e he
    exact ⟨hbooks.msgFaults, hbooks.aioFaults⟩
  · obtain ⟨-, hstep⟩ := hall e he
    rw [hlabel] at hstep
    exact releaseMsg_spec hstep
  · intro a out₁ out₂ w₁ w₂ w₃ tr' hfirst hbetween hfill hsecond
    have hempty : w₂.slot a = none := slot_none_run hbetween (releaseMsg_spec hfirst).2 hfill
    rw [(releaseMsg_spec hsecond).1, hempty]

/-- A send fails, and the next message for the aio makes the first one a stray. -/
theorem messages_accounted_refused :
    let ops : List (Op ℕ ℕ ℕ ℕ) :=
      [.msgAlloc 0 (.ok 7), .aioAlloc 0 (.ok 1), .setMsg 1 0, .send (.ctx 3) 1,
        .sendDone (.ctx 3) 1 .timedout, .msgAlloc 2 (.ok 8), .setMsg 1 2]
    (ops.foldl exec (World.init fun _ => none)).Stray 7 := by
  intro ops
  have allowed : Run.AllEnabled Enabled exec (World.init fun _ => none) ops :=
    ⟨⟨rfl, fun _ _ => rfl⟩, ⟨rfl, fun _ _ => rfl⟩, ⟨⟨_, rfl, rfl⟩, nofun⟩, ⟨_, rfl, rfl⟩,
      ⟨_, rfl, rfl⟩, ⟨rfl, by rintro _ ⟨⟩; rfl⟩, ⟨⟨_, rfl, rfl⟩, nofun⟩, trivial⟩
  have hstrays := (messages_accounted (fun _ => none) (Run.of_exec allowed)).2.2.2.2 7
  refine hstrays.mpr ⟨_, .tail _ (.tail _ (.tail _ (.tail _ (.tail _ (.tail _ (.head _)))))), ?_⟩
  rfl

end Nngpp.Aio
