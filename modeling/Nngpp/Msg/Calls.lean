import Nngpp.Msg.Model

/-!
Each member of an accessor is an operation on a list.

`Op.apply` says what each operation is on one plain list of bytes.
`Accessor.run_call` is the one statement about the wrappers: a call does to its
region of its message what the operation does to a list, or it throws what nng
reported, under the name of the nng function, and does nothing. It is proved of
the text that the two classes have in common, with one lemma for each kind of
wrapper.
-/

namespace Nngpp.Msg

open Function Lib

/-! ### Lists -/

/-- What nng answers when it is asked to append or to insert. -/
def accepted {α : Type} (fails : Option Failure) (out : α) : Except Error α :=
  match fails with
  | none => .ok out
  | some e => .error e.val

/-- Take off something that has to be there. -/
def removing {α : Type} (n : ℕ) (xs : List UInt8) (out : α) : Except Error α :=
  if n ≤ xs.length then .ok out else .error .inval

/-- An operation on a list of bytes: what it returns and the list after it, or
the code of its failure. -/
def Op.apply : Op → List UInt8 → Except Error (Ret × List UInt8)
  | .data, xs => .ok (.bytes xs, xs)
  | .size, xs => .ok (.size xs.length, xs)
  | .get, xs => .ok (.view ⟨xs, xs.length⟩, xs)
  | .clear, _ => .ok (.unit, [])
  | .append v fails, xs => accepted fails (.unit, xs ++ v.bytes)
  | .insert v fails, xs => accepted fails (.unit, v.bytes ++ xs)
  | .trim n, xs => removing n xs (.unit, xs.drop n)
  | .chop n, xs => removing n xs (.unit, xs.take (xs.length - n))
  | .appendU w val fails, xs => accepted fails (.unit, xs ++ w.encode val)
  | .insertU w val fails, xs => accepted fails (.unit, w.encode val ++ xs)
  | .trimU w, xs =>
      removing w.bytes xs (.value w (some (w.decode (xs.take w.bytes))), xs.drop w.bytes)
  | .chopU w, xs =>
      removing w.bytes xs (.value w (some (w.decode (xs.drop (xs.length - w.bytes)))),
        xs.take (xs.length - w.bytes))

/-- What the names of the two families begin with. -/
def Region.stem : Region → String
  | .header => "nng_msg_header_"
  | .body => "nng_msg_"

def Width.name : Width → String
  | .u16 => "u16"
  | .u32 => "u32"
  | .u64 => "u64"

/-- The name of the nng function, without the stem. -/
def Op.name : Op → String
  | .data => ""
  | .size => "len"
  | .get => ""
  | .clear => "clear"
  | .append _ _ => "append"
  | .insert _ _ => "insert"
  | .trim _ => "trim"
  | .chop _ => "chop"
  | .appendU w _ _ => "append_" ++ w.name
  | .insertU w _ _ => "insert_" ++ w.name
  | .trimU w => "trim_" ++ w.name
  | .chopU w => "chop_" ++ w.name

/-- The nng function that a member of the class forwards to. -/
def Op.symbol (r : Region) (op : Op) : String := r.stem ++ op.name

/-! ### One call -/

section Calls

variable {H : Type} [DecidableEq H]

/-- The outcome of a call which does to its region what happens to a list. -/
def outcome {α : Type} (r : Region) (m : H) (source : String) (s : Heap H) :
    Except Error (α × List UInt8) → EStateM.Result Exception (Heap H) α
  | .ok (a, xs) => .ok a (edit r m (fun _ => xs) s)
  | .error e => .error ⟨e, source⟩ s

theorem edit_seq (r : Region) (m : H) (s : Heap H) : edit r m (fun _ => (s m).seq r) s = s := by
  simp [edit]

section Wrappers

variable (r : Region) (source : String) (m : H) (s : Heap H)

theorem run_nngPut (f : List UInt8 → List UInt8) (fails : Option Failure) :
    (nngPut r m f fails >>= fun e => check e source).run s =
      outcome r m source s (accepted fails ((), f ((s m).seq r))) := by
  cases fails with
  | none => rfl
  | some e => exact run_check_failure e source s

theorem run_nngRemove_of_le {n : ℕ} (h : n ≤ ((s m).seq r).length) (f : List UInt8 → List UInt8) :
    (nngRemove r m f n).run s = .ok .success (edit r m f s) := by
  simp only [nngRemove, EStateM.run_bind, EStateM.run_get, if_neg (Nat.not_lt.mpr h)]
  rfl

theorem run_nngRemove_of_lt {n : ℕ} (h : ((s m).seq r).length < n) (f : List UInt8 → List UInt8) :
    (nngRemove r m f n).run s = .ok .inval s := by
  simp only [nngRemove, EStateM.run_bind, EStateM.run_get, if_pos h]
  rfl

theorem run_nngRemove (f : List UInt8 → List UInt8) (n : ℕ) :
    (nngRemove r m f n >>= fun e => check e source).run s =
      outcome r m source s (removing n ((s m).seq r) ((), f ((s m).seq r))) := by
  rcases Nat.lt_or_ge ((s m).seq r).length n with h | h
  · rw [run_bind_of_ok (run_nngRemove_of_lt r m s h f), removing, if_neg (Nat.not_le.mpr h)]
    rfl
  · rw [run_bind_of_ok (run_nngRemove_of_le r m s h f), removing, if_pos h]
    rfl

theorem run_append (v : View) (fails : Option Failure) :
    (append r source m v fails).run s =
      outcome r m source s (accepted fails ((), (s m).seq r ++ v.bytes)) :=
  run_nngPut r source m s (· ++ v.bytes) fails

theorem run_insert (v : View) (fails : Option Failure) :
    (insert r source m v fails).run s =
      outcome r m source s (accepted fails ((), v.bytes ++ (s m).seq r)) :=
  run_nngPut r source m s (v.bytes ++ ·) fails

theorem run_trim (n : ℕ) :
    (trim r source m n).run s =
      outcome r m source s (removing n ((s m).seq r) ((), ((s m).seq r).drop n)) :=
  run_nngRemove r source m s (·.drop n) n

theorem run_chop (n : ℕ) :
    (chop r source m n).run s =
      outcome r m source s
        (removing n ((s m).seq r) ((), ((s m).seq r).take (((s m).seq r).length - n))) :=
  run_nngRemove r source m s (fun xs => xs.take (xs.length - n)) n

variable (w : Width)

theorem take_encode (val : w.Value) : (w.encode val).take w.bytes = w.encode val :=
  List.take_of_length_le (w.length_encode val).le

theorem run_appendU (val : w.Value) (fails : Option Failure) :
    (appendU r source w m val fails).run s =
      outcome r m source s (accepted fails ((), (s m).seq r ++ w.encode val)) := by
  rw [appendU, nngAppendU, nngAppend, take_encode]
  exact run_nngPut r source m s (· ++ w.encode val) fails

theorem run_insertU (val : w.Value) (fails : Option Failure) :
    (insertU r source w m val fails).run s =
      outcome r m source s (accepted fails ((), w.encode val ++ (s m).seq r)) := by
  rw [insertU, nngInsertU, nngInsert, take_encode]
  exact run_nngPut r source m s (w.encode val ++ ·) fails

/-- A local variable that nng sets is set when the call does not throw. -/
theorem run_reading {α : Type} (f : List UInt8 → List UInt8) (n : ℕ) (out : List UInt8 → α) :
    (do
      let (e, val) ← (do
        let xs ← nngData r m
        let e ← nngRemove r m f n
        return (e, if e = .success then some (out xs) else none) : Call H (Error × Option α))
      check e source
      return val : Call H (Option α)).run s =
      outcome r m source s (removing n ((s m).seq r)
        (some (out ((s m).seq r)), f ((s m).seq r))) := by
  rcases Nat.lt_or_ge ((s m).seq r).length n with h | h
  · have hrun := run_nngRemove_of_lt r m s h f
    simp only [nngData, EStateM.run_bind, EStateM.run_get, EStateM.run_pure, hrun, removing,
      if_neg (Nat.not_le.mpr h)]
    rfl
  · have hrun := run_nngRemove_of_le r m s h f
    simp only [nngData, EStateM.run_bind, EStateM.run_get, EStateM.run_pure, hrun, removing,
      if_pos h]
    rfl

theorem run_trimU :
    (trimU r source w m).run s =
      outcome r m source s (removing w.bytes ((s m).seq r)
        (some (w.decode (((s m).seq r).take w.bytes)), ((s m).seq r).drop w.bytes)) :=
  run_reading r source m s (·.drop w.bytes) w.bytes fun xs => w.decode (xs.take w.bytes)

theorem run_chopU :
    (chopU r source w m).run s =
      outcome r m source s (removing w.bytes ((s m).seq r)
        (some (w.decode (((s m).seq r).drop (((s m).seq r).length - w.bytes))),
          ((s m).seq r).take (((s m).seq r).length - w.bytes))) :=
  run_reading r source m s (fun xs => xs.take (xs.length - w.bytes)) w.bytes fun xs =>
    w.decode (xs.drop (xs.length - w.bytes))

end Wrappers

theorem accepted_map {α β : Type} (fails : Option Failure) (out : α) (f : α → β) :
    (accepted fails out).map f = accepted fails (f out) := by
  cases fails <;> rfl

theorem removing_map {α β : Type} (n : ℕ) (xs : List UInt8) (out : α) (f : α → β) :
    (removing n xs out).map f = removing n xs (f out) := by
  rw [removing, removing, apply_ite (Except.map f)]
  rfl

/-- The wrapper of a call adds to what it returns. -/
theorem run_map_outcome {α β : Type} {x : Call H α} {r : Region} {m : H} {source : String}
    {s : Heap H} {res : Except Error (α × List UInt8)} (h : x.run s = outcome r m source s res)
    (g : α → β) :
    (g <$> x).run s = outcome r m source s (res.map (Prod.map g id)) := by
  cases res with
  | ok p => exact run_map_of_ok h g
  | error e => exact run_map_of_error h g

theorem run_done {x : Call H Unit} {r : Region} {m : H} {source : String} {s : Heap H}
    {res : Except Error (Unit × List UInt8)} (h : x.run s = outcome r m source s res) :
    (done x).run s = outcome r m source s (res.map (Prod.map (fun _ => .unit) id)) := by
  cases res with
  | ok p => exact run_bind_of_ok h _
  | error e => exact run_bind_of_error h _

theorem run_observe {α : Type} {x : Call H α} {r : Region} {m : H} {s : Heap H} {a : α}
    (h : x.run s = .ok a s) (source : String) (g : α → Ret) :
    (g <$> x).run s = outcome r m source s (.ok (g a, (s m).seq r)) := by
  rw [run_map_of_ok h, outcome, edit_seq]

/-- The text that the two classes have in common. -/
def Region.call (r : Region) (m : H) (op : Op) : Call H Ret :=
  match op with
  | .data => Ret.bytes <$> nngData r m
  | .size => Ret.size <$> nngLen r m
  | .get => Ret.view <$> viewOf r m
  | .clear => done (nngClear r m)
  | .append v fails => done (append r (op.symbol r) m v fails)
  | .insert v fails => done (insert r (op.symbol r) m v fails)
  | .trim size => done (trim r (op.symbol r) m size)
  | .chop size => done (chop r (op.symbol r) m size)
  | .appendU w val fails => done (appendU r (op.symbol r) w m val fails)
  | .insertU w val fails => done (insertU r (op.symbol r) w m val fails)
  | .trimU w => Ret.value w <$> trimU r (op.symbol r) w m
  | .chopU w => Ret.value w <$> chopU r (op.symbol r) w m

theorem MsgBody.call_eq (m : H) (op : Op) : MsgBody.call m op = Region.body.call m op := by
  cases op with
  | appendU w => cases w <;> rfl
  | insertU w => cases w <;> rfl
  | trimU w => cases w <;> rfl
  | chopU w => cases w <;> rfl
  | _ => rfl

theorem MsgHeader.call_eq (m : H) (op : Op) : MsgHeader.call m op = Region.header.call m op := by
  cases op with
  | appendU w => cases w <;> rfl
  | insertU w => cases w <;> rfl
  | trimU w => cases w <;> rfl
  | chopU w => cases w <;> rfl
  | _ => rfl

theorem Accessor.call_eq (a : Accessor H) (op : Op) : a.call op = a.region.call a.m op := by
  cases h : a.region with
  | header => rw [Accessor.call, h]; exact MsgHeader.call_eq _ _
  | body => rw [Accessor.call, h]; exact MsgBody.call_eq _ _

/-- A member of an accessor does to its region what the operation does to a list;
when it throws, it names the function that failed and has changed nothing. -/
theorem Accessor.run_call (a : Accessor H) (op : Op) (s : Heap H) :
    (a.call op).run s =
      outcome a.region a.m (op.symbol a.region) s (op.apply ((s a.m).seq a.region)) := by
  rw [Accessor.call_eq]
  cases op with
  | data => exact run_observe rfl _ _
  | size => exact run_observe rfl _ _
  | get => exact run_observe rfl _ _
  | clear => rfl
  | append v fails => exact (run_done (run_append _ _ _ s v fails)).trans (by rw [accepted_map]; rfl)
  | insert v fails => exact (run_done (run_insert _ _ _ s v fails)).trans (by rw [accepted_map]; rfl)
  | trim n => exact (run_done (run_trim _ _ _ s n)).trans (by rw [removing_map]; rfl)
  | chop n => exact (run_done (run_chop _ _ _ s n)).trans (by rw [removing_map]; rfl)
  | appendU w val fails =>
      exact (run_done (run_appendU _ _ _ s w val fails)).trans (by rw [accepted_map]; rfl)
  | insertU w val fails =>
      exact (run_done (run_insertU _ _ _ s w val fails)).trans (by rw [accepted_map]; rfl)
  | trimU w =>
      exact (run_map_outcome (run_trimU _ _ _ s w) _).trans (by rw [removing_map]; rfl)
  | chopU w =>
      exact (run_map_outcome (run_chopU _ _ _ s w) _).trans (by rw [removing_map]; rfl)

/-- A call that works on one message leaves every other one alone. -/
theorem leaves_outcome_of_ne {α : Type} {x : Call H α} {r : Region} {m : H} {source : String}
    {s : Heap H} {res : Except Error (α × List UInt8)} (h : x.run s = outcome r m source s res)
    {g : H} (hg : g ≠ m) : leaves x s g = s g := by
  cases res with
  | ok p =>
      rw [leaves_of_ok h]
      exact update_of_ne hg _ s
  | error e => rw [leaves_of_error h]

end Calls

end Nngpp.Msg
