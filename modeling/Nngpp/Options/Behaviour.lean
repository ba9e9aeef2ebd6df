import Nngpp.Lib.Run
import Nngpp.Options.Accessors

/-!
The accessors as a store.

A program calls accessors, one after the other, on options which are present;
a run keeps what each call was asked and what came of it. What an option should
hold can then be said without looking at nng: `lastStored` reads it off the calls
which returned. `BehavesAsStore` asks three things of a call: that it does not
fail for the type, that a getter returns what was last stored, and that nothing
changes but the option that is set.

The step lemma splits into the two ways a call can meet the tables. If the type
of the accessor is the one declared for its option, the call does all three; if
not, it fails with `badtype`. Of the accessors of the core headers one is of the
second sort.
-/

namespace Nngpp.Options

open Function Lib

variable {text : Macro → String} {Addr : Type}

/-- A call of an accessor. For a setter, also whether nng is going to refuse a
value of the right type. -/
inductive Request (Addr : Type)
  | get (g : Getter) (id : ℕ)
  | set (s : Setter) (id : ℕ) (v : Value Addr) (refusal : Option Refusal)

namespace Request

def object : Request Addr → Object
  | .get g id => g.object id
  | .set s id _ _ => s.object id

def option : Request Addr → Opt
  | .get g _ => g.option
  | .set s _ _ _ => s.option

/-- The accessor is one of the core headers, and the argument is of the type of
its parameter. -/
def Core : Request Addr → Prop
  | .get g _ => g ∈ coreGetters
  | .set s _ v _ => s ∈ coreSetters ∧ v.type = s.type

instance : (r : Request Addr) → Decidable r.Core
  | .get g _ => inferInstanceAs (Decidable (g ∈ coreGetters))
  | .set s _ v _ => inferInstanceAs (Decidable (s ∈ coreSetters ∧ v.type = s.type))

def call : Request Addr → Call text Addr (Option (Ret Addr))
  | .get g id => some <$> g.call id
  | .set s id v refusal => (fun _ => none) <$> s.call id v refusal

/-- The call reads the size limit of a socket. -/
def ReadsSocketSize : Request Addr → Prop
  | .get g _ => g = Socket.getOptRecvSizeMax
  | .set _ _ _ _ => False

end Request

/-- What was asked, and what was returned or thrown. -/
structure Event (Addr : Type) where
  request : Request Addr
  outcome : Except Exception (Option (Ret Addr))

/-- One call, on an option that is present. -/
def Step (s : Store text Addr) (e : Event Addr) (s' : Store text Addr) : Prop :=
  e.request.Core ∧ s.cell e.request.object (toName text e.request.option) ≠ none ∧
    e.request.call.run s =
      match e.outcome with
      | .ok out => .ok out s'
      | .error x => .error x s'

/-! ### The store the accessors should be -/

/-- What an option holds after a call, when it held `v` before: a setter that
returned has stored its argument. -/
def Event.stores (e : Event Addr) (x : Object) (o : Opt) (v : Option (Value Addr)) :
    Option (Value Addr) :=
  match e.request, e.outcome with
  | .set s id w _, .ok _ => if s.object id = x ∧ s.option = o then some w else v
  | _, _ => v

/-- The value last stored in an option by a setter that returned, or else the
initial one. -/
def lastStored (init : Store text Addr) (past : List (Transition (Store text Addr) (Event Addr)))
    (x : Object) (o : Opt) : Option (Value Addr) :=
  past.foldl (fun v e => e.label.stores x o v) (init.cell x (toName text o))

/-- What is asked of one call, after the calls `past`. -/
structure BehavesAsStore (init : Store text Addr)
    (past : List (Transition (Store text Addr) (Event Addr)))
    (e : Transition (Store text Addr) (Event Addr)) : Prop where
  /-- The call does not fail for the type. -/
  typed : ∀ x, e.label.outcome = .error x → x.getError ≠ .badtype
  /-- A getter returns the value last stored. -/
  reads : ∀ g id, e.label.request = .get g id →
    ∃ v, lastStored init past (g.object id) g.option = some v ∧ e.label.outcome = .ok (some v.ret)
  /-- Whatever is not the option of the call stays as it was. -/
  frame : ∀ y name, ¬ (y = e.label.request.object ∧ name = toName text e.label.request.option) →
    e.post.cell y name = e.pre.cell y name

/-! ### One call -/

@[simp] theorem Store.cell_put_self (s : Store text Addr) (x : Object) (name : String)
    (v : Value Addr) (h : declaredType text name = some v.type) :
    (s.put x name v h).cell x name = some v := by
  simp [Store.put]

theorem Store.cell_put_of_ne (s : Store text Addr) {x y : Object} {name m : String} {v : Value Addr}
    (h : declaredType text name = some v.type) (hne : ¬ (y = x ∧ m = name)) :
    (s.put x name v h).cell y m = s.cell y m := by
  rcases eq_or_ne y x with rfl | hy
  · have hm : m ≠ name := fun hm => hne ⟨rfl, hm⟩
    simp [Store.put, hm]
  · simp [Store.put, hy]

variable {s s' : Store text Addr} {e : Event Addr}

/-- A getter of the type of its option returns the value and changes nothing. -/
theorem step_get_of_type (htext : Injective text) {g : Getter} {id : ℕ}
    (htype : g.type = toType g.option) {out : Except Exception (Option (Ret Addr))}
    (h : Step s ⟨.get g id, out⟩ s') :
    s' = s ∧ ∃ v, s.cell (g.object id) (toName text g.option) = some v ∧ out = .ok (some v.ret) := by
  obtain ⟨-, hpresent, hrun⟩ := h
  obtain ⟨v, hv⟩ := Option.ne_none_iff_exists'.mp hpresent
  have hdecl : declaredType text (toName text g.option) = some g.type := by
    rw [htype]; exact declaredType_toName htext g.option
  have hcall : (Request.call (.get g id)).run s = .ok (some v.ret) s :=
    run_map_of_ok (run_getOpt_of_type hdecl hv) some
  rw [hcall] at hrun
  cases out with
  | ok a =>
      obtain ⟨rfl, rfl⟩ := EStateM.Result.ok.inj hrun
      exact ⟨rfl, v, hv, rfl⟩
  | error x => cases hrun

/-- A getter of another type fails with `badtype`. -/
theorem step_get_of_ne (htext : Injective text) {g : Getter} {id : ℕ}
    (htype : g.type ≠ toType g.option) {out : Except Exception (Option (Ret Addr))}
    (h : Step s ⟨.get g id, out⟩ s') :
    s' = s ∧ out = .error ⟨.badtype, getterSource g.kind g.type⟩ := by
  obtain ⟨-, -, hrun⟩ := h
  have hdecl : declaredType text (toName text g.option) ≠ some g.type := by
    rw [declaredType_toName htext g.option]
    exact fun h => htype (Option.some.inj h).symm
  have hcall : (Request.call (.get g id)).run s =
      .error ⟨.badtype, getterSource g.kind g.type⟩ s :=
    run_map_of_error (run_getOpt_of_ne hdecl) some
  rw [hcall] at hrun
  cases out with
  | ok a => cases hrun
  | error x =>
      obtain ⟨rfl, rfl⟩ := EStateM.Result.error.inj hrun
      exact ⟨rfl, rfl⟩

/-- A setter of the type of its option returns with its argument stored, or
throws for a reason which is not the type with nothing changed. -/
theorem step_set_of_type (htext : Injective text) {c : Setter} {id : ℕ} {v : Value Addr}
    {refusal : Option Refusal} (htype : v.type = toType c.option)
    {out : Except Exception (Option (Ret Addr))} (h : Step s ⟨.set c id v refusal, out⟩ s') :
    (out = .ok none ∧ ∃ hd, s' = s.put (c.object id) (toName text c.option) v hd) ∨
      ∃ x : Exception, out = .error x ∧ x.getError ≠ .badtype ∧ s' = s := by
  obtain ⟨-, hpresent, hrun⟩ := h
  have hdecl : declaredType text (toName text c.option) = some v.type := by
    rw [htype]; exact declaredType_toName htext c.option
  have hset := run_setOpt_of_type hdecl hpresent refusal
  cases refusal with
  | none =>
      have hcall : (Request.call (.set c id v none)).run s = .ok none _ :=
        run_map_of_ok hset fun _ => none
      rw [hcall] at hrun
      cases out with
      | ok a =>
          obtain ⟨rfl, rfl⟩ := EStateM.Result.ok.inj hrun
          exact .inl ⟨rfl, hdecl, rfl⟩
      | error x => cases hrun
  | some r =>
      have hcall : (Request.call (.set c id v (some r))).run s = .error _ _ :=
        run_map_of_error hset fun _ => none
      rw [hcall] at hrun
      cases out with
      | ok a => cases hrun
      | error x =>
          obtain ⟨hx, rfl⟩ := EStateM.Result.error.inj hrun
          refine .inr ⟨x, rfl, ?_, rfl⟩
          rw [← hx]
          exact r.property.2

/-- After a call each option holds what the call has stored, or what it held. -/
theorem step_cell (htext : Injective text) (h : Step s e s') (x : Object) (o : Opt) :
    s'.cell x (toName text o) = e.stores x o (s.cell x (toName text o)) := by
  obtain ⟨request, out⟩ := e
  match request with
  | .get g id =>
      have hs : s' = s := by
        by_cases htype : g.type = toType g.option
        · exact (step_get_of_type htext htype h).1
        · exact (step_get_of_ne htext htype h).1
      rw [hs]
      rfl
  | .set c id v refusal =>
      obtain ⟨hc, hv⟩ := h.1
      obtain ⟨rfl, hd, rfl⟩ | ⟨x, rfl, -, rfl⟩ :=
        step_set_of_type htext (hv.trans (setter_type c hc)) h
      · by_cases hsame : c.object id = x ∧ c.option = o
        · obtain ⟨rfl, rfl⟩ := hsame
          simp [Event.stores]
        · have hname : ¬ (x = c.object id ∧ toName text o = toName text c.option) := by
            rintro ⟨rfl, hn⟩
            exact hsame ⟨rfl, (toName_injective htext hn).symm⟩
          rw [Store.cell_put_of_ne s hd hname]
          simp [Event.stores, hsame]
      · rfl

/-- A call behaves exactly when it does not read the size limit of a socket. -/
theorem behavesAsStore_iff (htext : Injective text) {init : Store text Addr}
    {past : List (Transition (Store text Addr) (Event Addr))} (h : Step s e s')
    (hpast : ∀ x o, s.cell x (toName text o) = lastStored init past x o) :
    BehavesAsStore init past ⟨s, e, s'⟩ ↔ ¬ e.request.ReadsSocketSize := by
  obtain ⟨request, out⟩ := e
  match request with
  | .get g id =>
      have hcore : g ∈ coreGetters := h.1
      by_cases htype : g.type = toType g.option
      · obtain ⟨rfl, v, hv, rfl⟩ := step_get_of_type htext htype h
        refine iff_of_true ⟨nofun, ?_, fun _ _ _ => rfl⟩ ((getter_type_iff g hcore).mp htype)
        rintro g' id' ⟨⟩
        exact ⟨v, (hpast _ _).symm.trans hv, rfl⟩
      · obtain ⟨rfl, rfl⟩ := step_get_of_ne htext htype h
        refine iff_of_false (fun hb => hb.typed _ rfl rfl) ?_
        exact fun hne => htype ((getter_type_iff g hcore).mpr hne)
  | .set c id v refusal =>
      obtain ⟨hc, hv⟩ := h.1
      refine iff_of_true ?_ fun hreads => hreads
      obtain ⟨rfl, hd, rfl⟩ | ⟨x, rfl, hx, rfl⟩ :=
        step_set_of_type htext (hv.trans (setter_type c hc)) h
      · exact ⟨nofun, nofun, fun y name hne => Store.cell_put_of_ne s hd hne⟩
      · refine ⟨?_, nofun, fun _ _ _ => rfl⟩
        rintro x' ⟨⟩
        exact hx

/-! ### Whole runs -/

theorem lastStored_snoc (init : Store text Addr)
    (past : List (Transition (Store text Addr) (Event Addr)))
    (e : Transition (Store text Addr) (Event Addr)) (x : Object) (o : Opt) :
    lastStored init (past ++ [e]) x o = e.label.stores x o (lastStored init past x o) := by
  simp [lastStored]

/-- nng's store is at all times what the calls have made of it. -/
theorem run_cell (htext : Injective text) {init t : Store text Addr}
    {tr : List (Transition (Store text Addr) (Event Addr))} (run : Run Step init tr t)
    (x : Object) (o : Opt) : t.cell x (toName text o) = lastStored init tr x o := by
  induction run with
  | nil => rfl
  | snoc _ h ih => rw [lastStored_snoc, step_cell htext h, ih]

/-- The calls of a run all behave exactly when none of them reads the size limit
of a socket. -/
theorem accessors_store_iff (htext : Injective text) {init t : Store text Addr}
    {tr : List (Transition (Store text Addr) (Event Addr))} (run : Run Step init tr t) :
    (∀ past e rest, tr = past ++ e :: rest → BehavesAsStore init past e) ↔
      ∀ e ∈ tr, ¬ e.label.request.ReadsSocketSize := by
  induction run with
  | nil => simp
  | @snoc tr t u l run h ih =>
      have hlast := behavesAsStore_iff htext h fun x o => run_cell htext run x o
      constructor
      · intro hall e he
        rcases List.mem_append.mp he with he | he
        · refine ih.mp (fun past e' rest hsplit => hall past e' (rest ++ [⟨t, l, u⟩]) ?_) e he
          simp [hsplit]
        · rw [List.mem_singleton.mp he]
          exact hlast.mp (hall tr _ [] rfl)
      · intro hall past e rest hsplit
        rcases rest.eq_nil_or_concat with rfl | ⟨rest, last, rfl⟩
        · obtain ⟨rfl, he⟩ := List.append_inj' hsplit rfl
          obtain rfl := List.singleton_inj.mp he
          exact hlast.mpr (hall _ (List.mem_append_right _ (List.mem_singleton_self _)))
        · have hsplit' : tr ++ [⟨t, l, u⟩] = (past ++ e :: rest) ++ [last] := by simp [hsplit]
          obtain ⟨htr, -⟩ := List.append_inj' hsplit' rfl
          exact ih.mpr (fun e' he' => hall e' (by simp [he'])) past e rest htr

/-- A store in which one object has one option. -/
def Store.single (text : Macro → String) (htext : Injective text) (x : Object) (o : Opt)
    (v : Value Addr) (hv : v.type = toType o) : Store text Addr where
  cell y name := if y = x ∧ name = toName text o then some v else none
  typed y name u d hu hd := by
    split at hu
    · next h =>
        obtain rfl := Option.some.inj hu
        rw [h.2, declaredType_toName htext o] at hd
        exact hv.trans (Option.some.inj hd)
    · cases hu

/-- A socket with a hop limit of 8. -/
def hopLimit : Store nngText Unit :=
  .single nngText nngText_injective ⟨.socket, 1⟩ .ttlMax (.int_ 8) rfl

/-- The hop limit is set to 4 and read. -/
theorem accessors_store_hopLimit :
    let set : Event Unit := ⟨.set Socket.setOptTtlMax 1 (.int_ 4) none, .ok none⟩
    let get : Event Unit := ⟨.get Socket.getOptTtlMax 1, .ok (some (.value (.int_ 4)))⟩
    let stored := hopLimit.put ⟨.socket, 1⟩ "ttl-max" (.int_ 4) (by decide)
    ∀ past e rest, [⟨hopLimit, set, stored⟩, ⟨stored, get, stored⟩] = past ++ e :: rest →
      BehavesAsStore hopLimit past e := by
  intro set get stored
  have hset : Step hopLimit set stored := ⟨⟨by decide, rfl⟩, nofun, rfl⟩
  have hget : Step stored get stored := by
    refine ⟨by decide, nofun, ?_⟩
    rfl
  refine (accessors_store_iff nngText_injective ((Run.nil.snoc hset).snoc hget)).mpr ?_
  simp [set, get, Request.ReadsSocketSize, Socket.getOptTtlMax, Socket.getOptRecvSizeMax]

/-- A socket which receives at most 64 bytes. -/
def sizeLimit : Store nngText Unit :=
  .single nngText nngText_injective ⟨.socket, 1⟩ .recvSizeMax (.size 64) rfl

/-- Reading the limit fails for the type. -/
theorem getOptRecvSizeMax_badtype :
    (Socket.getOptRecvSizeMax.call 1).run sizeLimit =
        .error ⟨.badtype, "nng_socket_get_string"⟩ sizeLimit ∧
      ¬ ∀ (tr : List (Transition (Store nngText Unit) (Event Unit))) (t : Store nngText Unit),
        Run Step sizeLimit tr t →
          ∀ past e rest, tr = past ++ e :: rest → BehavesAsStore sizeLimit past e := by
  refine ⟨rfl, fun hall => ?_⟩
  have hstep : Step sizeLimit ⟨.get Socket.getOptRecvSizeMax 1,
      .error ⟨.badtype, "nng_socket_get_string"⟩⟩ sizeLimit := ⟨by decide, nofun, rfl⟩
  exact (hall _ _ (Run.nil.snoc hstep) [] _ [] rfl).typed _ rfl rfl

end Nngpp.Options
