import Nngpp.Buffer.Model
import Nngpp.Options.Tables

/-!
The typed option members of the views, over nng's option store.

`socket_view`, `ctx_view`, `dialer_view`, `listener_view` and `pipe_view` each
have one getter and (but for `pipe_view`) one setter for every option type.
They are one text: the call of the nng function that is named after the kind of
the object and the type, and the exception with the name of that function. Only
`get_opt_string` does more, since it has to measure the block it is given.

nng keeps one value per object and option name, of the type the tables declare
for the name; a `Store` carries this as a field. A call with another type fails
with `badtype`, and otherwise a get returns the value, and a set replaces it or
is refused for a reason of nng's own.
-/

namespace Nngpp.Options

open Function

/-- An object of nng: its kind and its id. -/
structure Object where
  kind : Kind
  id : ℕ
  deriving DecidableEq, Repr

/-- A value of one of the eight types. Socket addresses are nng's. -/
inductive Value (Addr : Type)
  | bool_ (v : Bool)
  | int_ (v : Int32)
  | ms (v : Int32)
  | size (v : UInt64)
  | uint64 (v : UInt64)
  | ptr (v : UInt64)
  | string (v : CString)
  | addr (v : Addr)

def Value.type {Addr : Type} : Value Addr → OptionType
  | .bool_ _ => .bool_
  | .int_ _ => .int_
  | .ms _ => .ms
  | .size _ => .size
  | .uint64 _ => .uint64
  | .ptr _ => .ptr
  | .string _ => .string
  | .addr _ => .addr

/-! ### nng -/

/-- nng's options: the value of each option present, of the declared type. -/
structure Store (text : Macro → String) (Addr : Type) where
  cell : Object → String → Option (Value Addr)
  typed : ∀ x name v d, cell x name = some v → declaredType text name = some d → v.type = d

/-- Why nng refuses to set an option with a value of the right type: out of
range, read-only, or anything else that is not the type. -/
abbrev Refusal := { e : Error // e ≠ .success ∧ e ≠ .badtype }

/-- The failure of a call with the wrong type. -/
def badtype : Failure := ⟨.badtype, by decide⟩

/-- The failure of a call on an option that the object does not have. -/
def notsup : Failure := ⟨.notsup, by decide⟩

variable {text : Macro → String} {Addr : Type}

/-- `nng_<kind>_get_<type>`. -/
def Store.nngGet (s : Store text Addr) (type : OptionType) (x : Object) (name : String) :
    Answer (Value Addr) :=
  if declaredType text name ≠ some type then .error badtype
  else match s.cell x name with
    | some v => .ok v
    | none => .error notsup

/-- The store with another value, of the declared type, for one option. -/
def Store.put (s : Store text Addr) (x : Object) (name : String) (v : Value Addr)
    (h : declaredType text name = some v.type) : Store text Addr where
  cell := update s.cell x (update (s.cell x) name (some v))
  typed y m u d hu hd := by
    rcases eq_or_ne y x with rfl | hyx
    · rcases eq_or_ne m name with rfl | hm
      · simp only [update_self, Option.some.injEq] at hu
        exact hu ▸ Option.some.inj (h.symm.trans hd)
      · simp only [update_self, update_of_ne hm] at hu
        exact s.typed y m u d hu hd
    · rw [update_of_ne hyx] at hu
      exact s.typed y m u d hu hd

/-- `nng_<kind>_set_<type>`, which nng may refuse. -/
def Store.nngSet (s : Store text Addr) (x : Object) (name : String) (v : Value Addr)
    (refusal : Option Refusal) : Error × Store text Addr :=
  if h : declaredType text name = some v.type then
    match s.cell x name, refusal with
    | none, _ => (.notsup, s)
    | some _, some e => (e.val, s)
    | some _, none => (.success, s.put x name v h)
  else (.badtype, s)

/-! ### The members -/

/-- What a getter returns: a value, or the buffer of a string. -/
inductive Ret (Addr : Type)
  | value (v : Value Addr)
  | buffer (bytes : List UInt8)

abbrev Call (text : Macro → String) (Addr : Type) := EStateM Exception (Store text Addr)

/-- The part of the name of an nng function that stands for the kind. -/
def kindWord : Kind → String
  | .socket => "socket"
  | .ctx => "ctx"
  | .dialer => "dialer"
  | .listener => "listener"
  | .pipe => "pipe"

/-- The part that stands for the type. -/
def OptionType.word : OptionType → String
  | .bool_ => "bool"
  | .int_ => "int"
  | .ms => "ms"
  | .size => "size"
  | .uint64 => "uint64"
  | .ptr => "ptr"
  | .string => "string"
  | .addr => "addr"

/-- The nng function behind a getter. -/
def getterSource (k : Kind) (type : OptionType) : String :=
  "nng_" ++ kindWord k ++ "_get_" ++ type.word

/-- The nng function behind a setter. -/
def setterSource (k : Kind) (type : OptionType) : String :=
  "nng_" ++ kindWord k ++ "_set_" ++ type.word

/-- The common text of the getters. -/
def getTyped (type : OptionType) (x : Object) (name : String) : Call text Addr (Value Addr) := do
  orThrow ((← get).nngGet type x name) (getterSource x.kind type)

/-- `get_opt_bool` and the others that return the value as it is. -/
def getValue (type : OptionType) (x : Object) (name : String) : Call text Addr (Ret Addr) := do
  return .value (← getTyped type x name)

/-- `get_opt_string`: nng hands over a block with the string and its terminator,
and the buffer is as long as `strlen` says, plus one. -/
def getOptString (x : Object) (name : String) : Call text Addr (Ret Addr) := do
  match ← getTyped .string x name with
  | .string s =>
      let data := s.val ++ [0]
      return .buffer (data.take (strlen data + 1))
  | v => return .value v

/-- The member that reads an option of a type. -/
def getOpt (type : OptionType) (x : Object) (name : String) : Call text Addr (Ret Addr) :=
  match type with
  | .string => getOptString x name
  | type => getValue type x name

/-- The member that sets an option of the type of the value. -/
def setOpt (x : Object) (name : String) (v : Value Addr) (refusal : Option Refusal) :
    Call text Addr Unit := do
  let r ← modifyGet fun s => s.nngSet x name v refusal
  check r (setterSource x.kind v.type)

/-- The value as a getter of its own type returns it. -/
def Value.ret : Value Addr → Ret Addr
  | .string s => .buffer (s.val ++ [0])
  | v => .value v

/-! ### What the members do -/

theorem run_getTyped_of_type {s : Store text Addr} {x : Object} {name : String} {v : Value Addr}
    (htype : declaredType text name = some v.type) (hv : s.cell x name = some v) :
    (getTyped v.type x name).run s = .ok v s := by
  simp [getTyped, Store.nngGet, htype, hv]

theorem run_getTyped_of_ne {s : Store text Addr} {x : Object} {name : String} {type : OptionType}
    (htype : declaredType text name ≠ some type) :
    (getTyped type x name).run s = .error ⟨.badtype, getterSource x.kind type⟩ s := by
  simp [getTyped, Store.nngGet, htype, badtype]

/-- A getter of the declared type returns the value. -/
theorem run_getOpt_of_type {s : Store text Addr} {x : Object} {name : String} {v : Value Addr}
    {type : OptionType} (htype : declaredType text name = some type)
    (hv : s.cell x name = some v) : (getOpt type x name).run s = .ok v.ret s := by
  have hvt : v.type = type := s.typed x name v type hv htype
  subst hvt
  have hget := run_getTyped_of_type htype hv
  cases v with
  | string c =>
      have hget : (getTyped .string x name).run s = .ok (.string c) s := hget
      simp only [Value.type, getOpt, getOptString, run_bind_of_ok hget]
      simp [strlen_terminated, Value.ret, List.take_of_length_le]
  | _ => exact run_map_of_ok hget Ret.value

/-- A getter of another type fails with `badtype`. -/
theorem run_getOpt_of_ne {s : Store text Addr} {x : Object} {name : String} {type : OptionType}
    (htype : declaredType text name ≠ some type) :
    (getOpt type x name).run s = .error ⟨.badtype, getterSource x.kind type⟩ s := by
  have hget := run_getTyped_of_ne (s := s) (x := x) htype
  cases type with
  | string => exact run_bind_of_error hget _
  | _ => exact run_map_of_error hget Ret.value

/-- A setter of the declared type stores the value, unless nng refuses. -/
theorem run_setOpt_of_type {s : Store text Addr} {x : Object} {name : String} {v : Value Addr}
    (htype : declaredType text name = some v.type) (hpresent : s.cell x name ≠ none)
    (refusal : Option Refusal) :
    (setOpt x name v refusal).run s =
      match refusal with
      | none => .ok () (s.put x name v htype)
      | some e => .error ⟨e.val, setterSource x.kind v.type⟩ s := by
  obtain ⟨old, hold⟩ := Option.ne_none_iff_exists'.mp hpresent
  cases refusal with
  | none => simp [setOpt, Store.nngSet, htype, hold]
  | some e => simp [setOpt, Store.nngSet, htype, hold, run_check_of_ne e.property.1]

end Nngpp.Options
