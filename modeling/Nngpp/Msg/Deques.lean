import Nngpp.Msg.Calls
import Nngpp.Lib.Run

/-!
A message is a pair of independent deques of bytes.

A program works on one message: it takes accessor objects from the view, keeps
them as long as it likes, calls their members and reallocates the body. The
same program on two plain lists, where an accessor is only the choice of a
list, gives the same results all along.
-/

namespace Nngpp.Msg

open Function Lib

/-- The accessor objects are named by `A`. -/
inductive Request (A : Type)
  | header (a : A)
  | body (a : A)
  | via (a : A) (op : Op)
  | realloc (size : ℕ) (fill : ℕ → UInt8) (fails : Option Failure)

/-- nng's messages and the accessor objects. -/
structure World (A H : Type) where
  heap : Heap H
  acc : A → Accessor H

/-- The two lists, and the one that each accessor stands for. -/
structure Lists (A : Type) where
  msg : Message
  acc : A → Region

variable {A H : Type}

def onHeap {α : Type} (x : Call H α) : EStateM Exception (World A H) α :=
  within World.heap (fun w s => { w with heap := s }) x

theorem run_onHeap {α : Type} {x : Call H α} {a : α} {w : World A H} {s : Heap H}
    (h : x.run w.heap = .ok a s) : (onHeap x).run w = .ok a { w with heap := s } :=
  run_within_ok h

theorem run_onHeap_error {α : Type} {x : Call H α} {e : Exception} {w : World A H} {s : Heap H}
    (h : x.run w.heap = .error e s) :
    (onHeap x : EStateM _ _ α).run w = .error e { w with heap := s } :=
  run_within_error h

variable [DecidableEq A]

section Messages

variable [DecidableEq H]

/-- A request to the view of the message `m`. -/
def Request.call (m : H) : Request A → EStateM Exception (World A H) Ret
  | .header a => do
      modify fun w => { w with acc := update w.acc a (MsgView.header m) }
      return .unit
  | .body a => do
      modify fun w => { w with acc := update w.acc a (MsgView.body m) }
      return .unit
  | .via a op => do
      let o := (← get).acc a
      onHeap (o.call op)
  | .realloc size fill fails => onHeap (done (MsgView.realloc m size fill fails))

/-- The program sees what a call returns, or the code of its exception. -/
def step (m : H) : Machine (World A H) (Request A) (Except Error Ret) := fun w q =>
  match (q.call m).run w with
  | .ok ret w' => (.ok ret, w')
  | .error e w' => (.error e.getError, w')

end Messages

/-- The same request to the lists. -/
def Request.apply : Request A → Lists A → Except Error (Ret × Lists A)
  | .header a, l => .ok (.unit, { l with acc := update l.acc a .header })
  | .body a, l => .ok (.unit, { l with acc := update l.acc a .body })
  | .via a op, l =>
      (op.apply (l.msg.seq (l.acc a))).map fun p =>
        (p.1, { l with msg := l.msg.withSeq (l.acc a) p.2 })
  | .realloc size fill fails, l =>
      accepted fails (.unit, { l with msg := { l.msg with body := resize size fill l.msg.body } })

def Lists.step : Machine (Lists A) (Request A) (Except Error Ret) := fun l q =>
  match q.apply l with
  | .ok (ret, l') => (.ok ret, l')
  | .error e => (.error e, l)

/-- The nng function that a request calls. -/
def Request.symbol (l : Lists A) : Request A → String
  | .header _ => ""
  | .body _ => ""
  | .via a op => op.symbol (l.acc a)
  | .realloc _ _ _ => "nng_msg_realloc"

/-- The world in which the lists are the contents of `m`, among other messages. -/
def Lists.at (l : Lists A) (m : H) [DecidableEq H] (others : Heap H) : World A H where
  heap := update others m l.msg
  acc a := ⟨l.acc a, m⟩

/-! ### One request -/

variable [DecidableEq H] (m : H) (others : Heap H)

theorem edit_update (r : Region) (msg : Message) (xs : List UInt8) :
    edit r m (fun _ => xs) (update others m msg) = update others m (msg.withSeq r xs) := by
  simp [edit]

/-- What the outcome of a request says of the world. -/
def landing (q : Request A) (l : Lists A) :
    Except Error (Ret × Lists A) → EStateM.Result Exception (World A H) Ret
  | .ok (ret, l') => .ok ret (l'.at m others)
  | .error e => .error ⟨e, q.symbol l⟩ (l.at m others)

theorem run_via (a : A) (op : Op) (l : Lists A) :
    ((Request.via a op).call m).run (l.at m others) =
      landing m others (.via a op) l ((Request.via a op).apply l) := by
  have hrun := Accessor.run_call ⟨l.acc a, m⟩ op (l.at m others : World A H).heap
  have hseq : (l.at m others : World A H).heap m = l.msg := update_self ..
  rw [hseq] at hrun
  show (onHeap (Accessor.call ⟨l.acc a, m⟩ op)).run (l.at m others) = _
  cases hop : op.apply (l.msg.seq (l.acc a)) with
  | ok p =>
      rw [hop] at hrun
      rw [run_onHeap hrun, Lists.at, edit_update, Request.apply, hop]
      rfl
  | error e =>
      rw [hop] at hrun
      rw [run_onHeap_error hrun, Request.apply, hop]
      rfl

theorem run_realloc (size : ℕ) (fill : ℕ → UInt8) (fails : Option Failure) (l : Lists A) :
    ((Request.realloc size fill fails : Request A).call m).run (l.at m others) =
      landing m others (.realloc size fill fails) l
        ((Request.realloc size fill fails).apply l) := by
  have hrun := run_done (run_nngPut .body "nng_msg_realloc" m (l.at m others : World A H).heap
    (resize size fill) fails)
  have hseq : (l.at m others : World A H).heap m = l.msg := update_self ..
  rw [hseq] at hrun
  show (onHeap (done (MsgView.realloc m size fill fails))).run (l.at m others) = _
  cases fails with
  | none =>
      rw [MsgView.realloc, nngRealloc, run_onHeap hrun, Lists.at, edit_update]
      rfl
  | some e =>
      rw [MsgView.realloc, nngRealloc, run_onHeap_error hrun]
      rfl

theorem at_take (a : A) (r : Region) (l : Lists A) :
    (Lists.at { l with acc := update l.acc a r } m others : World A H) =
      { l.at m others with acc := update (l.at m others : World A H).acc a ⟨r, m⟩ } := by
  simp only [Lists.at, World.mk.injEq, true_and]
  funext b
  rcases eq_or_ne b a with rfl | h
  · simp
  · simp [h]

/-- A request to the view is the request to the lists. -/
theorem Request.run_call (q : Request A) (l : Lists A) :
    (q.call m).run (l.at m others) = landing m others q l (q.apply l) := by
  cases q with
  | header a =>
      rw [apply, landing, at_take]
      rfl
  | body a =>
      rw [apply, landing, at_take]
      rfl
  | via a op => exact run_via m others a op l
  | realloc size fill fails => exact run_realloc m others size fill fails l

/-! ### Integers -/

theorem apply_chopU (w : Width) (val : w.Value) (xs : List UInt8) :
    Op.apply (.chopU w) (xs ++ w.encode val) = .ok (.value w (some val), xs) := by
  have hle : w.bytes ≤ (xs ++ w.encode val).length := by simp
  have hsub : (xs ++ w.encode val).length - w.bytes = xs.length := by simp
  rw [Op.apply, removing, if_pos hle, hsub, List.drop_left, List.take_left, Width.decode_encode]

theorem apply_trimU (w : Width) (val : w.Value) (xs : List UInt8) :
    Op.apply (.trimU w) (w.encode val ++ xs) = .ok (.value w (some val), xs) := by
  have hle : w.bytes ≤ (w.encode val ++ xs).length := by simp
  rw [Op.apply, removing, if_pos hle, List.drop_left' (w.length_encode val),
    List.take_left' (w.length_encode val), Width.decode_encode]

omit [DecidableEq A] in
/-- Two calls, one after the other. -/
theorem run_pair {a : Accessor H} {op₁ op₂ : Op} {s : Heap H} {ret₁ ret₂ : Ret}
    {xs₁ xs₂ : List UInt8} (h₁ : op₁.apply ((s a.m).seq a.region) = .ok (ret₁, xs₁))
    (h₂ : op₂.apply xs₁ = .ok (ret₂, xs₂)) :
    (do
      let _ ← a.call op₁
      a.call op₂).run s = .ok ret₂ (edit a.region a.m (fun _ => xs₂) s) := by
  have hrun₁ := Accessor.run_call a op₁ s
  have hrun₂ := Accessor.run_call a op₂ (edit a.region a.m (fun _ => xs₁) s)
  have hseq : (edit a.region a.m (fun _ => xs₁) s a.m).seq a.region = xs₁ := by simp [edit]
  rw [h₁] at hrun₁
  rw [hseq, h₂] at hrun₂
  rw [run_bind_of_ok hrun₁, hrun₂]
  simp [outcome, edit]

section RoundTrips

variable (a : Accessor H) (w : Width) (val : w.Value) (s : Heap H)

/-- What was appended is chopped, whatever is in front of it. -/
theorem append_chop :
    (do
      let _ ← a.call (.appendU w val none)
      a.call (.chopU w)).run s = .ok (.value w (some val)) s := by
  rw [run_pair rfl (apply_chopU w val _), edit_seq]

/-- What was inserted is trimmed, whatever is behind it. -/
theorem insert_trim :
    (do
      let _ ← a.call (.insertU w val none)
      a.call (.trimU w)).run s = .ok (.value w (some val)) s := by
  rw [run_pair rfl (apply_trimU w val _), edit_seq]

end RoundTrips

/-! ### Independence -/

theorem edit_apply (r : Region) (f : List UInt8 → List UInt8) (s : Heap H) :
    edit r m f s m = (s m).withSeq r (f ((s m).seq r)) := by
  simp [edit]

omit [DecidableEq A] in
/-- A call touches no other region. -/
theorem leaves_outcome {α : Type} {x : Call H α} {r r' : Region} {source : String} {s : Heap H}
    {res : Except Error (α × List UInt8)} (hr : r' ≠ r)
    (h : x.run s = outcome r m source s res) : (leaves x s m).seq r' = (s m).seq r' := by
  cases res with
  | ok p => rw [leaves_of_ok h, edit_apply, Message.seq_withSeq_of_ne _ hr]
  | error e => rw [leaves_of_error h]

omit [DecidableEq A] in
theorem leaves_realloc (size : ℕ) (fill : ℕ → UInt8) (fails : Option Failure) (s : Heap H) :
    (leaves (MsgView.realloc m size fill fails) s m).header = (s m).header :=
  leaves_outcome m (nofun : Region.header ≠ .body)
    (run_nngPut .body "nng_msg_realloc" m s (resize size fill) fails)

/-! ### Programs -/

theorem step_at (l : Lists A) (q : Request A) :
    step m (l.at m others) q = ((Lists.step l q).1, (Lists.step l q).2.at m others) := by
  rw [step, Request.run_call, Lists.step]
  cases q.apply l with
  | ok p => rfl
  | error e => rfl

theorem throws_iff (l : Lists A) (q : Request A) (e : Exception) (w : World A H) :
    (q.call m).run (l.at m others) = .error e w ↔
      q.apply l = .error e.getError ∧ e.who = q.symbol l ∧ w = l.at m others := by
  rw [Request.run_call]
  constructor
  · intro h
    cases hq : q.apply l with
    | ok p => rw [hq] at h; cases h
    | error c => rw [hq] at h; cases h; exact ⟨rfl, rfl, rfl⟩
  · rintro ⟨hq, hwho, rfl⟩
    rw [hq, landing, ← hwho]
    rfl

/-- A program on a message `m`, with whatever contents and accessor objects it
starts, is the program on two lists: it gets the same results, and in the end the
lists are the contents of `m`, the accessors stand for the same lists and no
other message has changed. A request throws, with the name of the nng function,
exactly when the operation on the lists fails, and then nothing has changed; the
members of `msg_body` never change the header nor those of `msg_header` the
body; and an integer of any width is read back at the end where it was written. -/
theorem deques_refine (m : H) (others : Heap H) :
    (∀ (l : Lists A) (qs : List (Request A)),
      Machine.run (step m) (l.at m others) qs =
        ((Machine.run Lists.step l qs).1, (Machine.run Lists.step l qs).2.at m others)) ∧
    (∀ (l : Lists A) (q : Request A) (e : Exception) (w : World A H),
      (q.call m).run (l.at m others) = .error e w ↔
        q.apply l = .error e.getError ∧ e.who = q.symbol l ∧ w = l.at m others) ∧
    (∀ (op : Op) (s : Heap H), (leaves ((MsgView.body m).call op) s m).header = (s m).header) ∧
    (∀ (op : Op) (s : Heap H), (leaves ((MsgView.header m).call op) s m).body = (s m).body) ∧
    (∀ size fill fails (s : Heap H),
      (leaves (MsgView.realloc m size fill fails) s m).header = (s m).header) ∧
    (∀ (a : Accessor H) (w : Width) (val : w.Value) (s : Heap H),
      (do
        let _ ← a.call (.appendU w val none)
        a.call (.chopU w)).run s = .ok (.value w (some val)) s ∧
      (do
        let _ ← a.call (.insertU w val none)
        a.call (.trimU w)).run s = .ok (.value w (some val)) s) := by
  refine ⟨fun l qs => ?_, fun l q e w => ?_, fun op s => ?_, fun op s => ?_,
    fun size fill fails s => ?_, fun a w val s => ⟨append_chop a w val s, insert_trim a w val s⟩⟩
  · have hstep : ∀ (w : World A H) (k : Lists A) (q : Request A), w = k.at m others → True →
        (step m w q).1 = (Lists.step k q).1 ∧ (step m w q).2 = (Lists.step k q).2.at m others := by
      rintro _ k q rfl -
      rw [step_at]
      exact ⟨rfl, rfl⟩
    obtain ⟨houts, hlast⟩ := Machine.run_eq hstep rfl qs fun _ _ => trivial
    exact Prod.ext houts hlast
  · exact throws_iff m others l q e w
  · exact leaves_outcome m (nofun : Region.header ≠ .body) (Accessor.run_call (MsgView.body m) op s)
  · exact leaves_outcome m (nofun : Region.body ≠ .header)
      (Accessor.run_call (MsgView.header m) op s)
  · exact leaves_realloc m size fill fails s

end Nngpp.Msg
