import Nngpp.Calls
import Nngpp.Lib.Run
import Nngpp.Lib.Scope
import Nngpp.Perf.Arguments

/-!
The HTTP client.

`main` makes its objects one after the other, each in the scope of those before, and has
one operation at a time under way on its aio. It can leave by an exception at nearly
every call. `client_clean` says what is left then: every object has freed its handle, but
nobody closes the connection, which is in a `conn_view`.
-/

namespace Nngpp.HttpClient

open Lib

/-- The handles that are in objects of `main`. -/
inductive Handle
  | url | client | aio | req | res | data
  deriving DecidableEq

inductive Operation
  | connect | write | read
  | readAll (size : ℕ)
  deriving DecidableEq

/-- The handles that are live, whether there is a connection, the operation of the aio
and the result of the last one, the header `Content-Length` of the response, what is in
`data` and what has been printed; and whether something has been freed, or used, that
must not be. -/
structure Process where
  live : List Handle
  conn : Bool
  op : Option Operation
  result : Error
  length : Option (List UInt8)
  body : List UInt8
  printed : List (List UInt8)
  returned : Option ℕ
  fault : Bool

/-- What nng answers. -/
inductive Reply
  | fails (e : Failure)
  | works
  | response (length : Option (List UInt8))
  | bytes (body : List UInt8)

abbrev Action (α : Type) := Unit → Reply → Process → Option (α × Process)

abbrev Code (α : Type) := Lib.Code Unit Reply Process Exception α

/-! ### Statements -/

/-- A constructor that gets a handle from nng. -/
def acquire (h : Handle) : Action Error := fun _ ans s =>
  match ans with
  | .fails e => some (e.val, s)
  | _ => some (.success, { s with live := h :: s.live })

/-- `explicit buffer( size_t sz )`: `nng_alloc` only fails for want of memory. -/
def allocData : Action Error := fun t ans s =>
  match ans with
  | .fails _ => some (.nomem, s)
  | ans => acquire .data t ans s

/-- A destructor. What an operation uses must not be freed. -/
def free (h : Handle) : Action Unit := fun _ _ s =>
  if h ∈ s.live ∧ s.op = none then some ((), { s with live := s.live.erase h })
  else some ((), { s with fault := true })

/-- A call which has no effect here. -/
def call : Action Error := fun _ ans s =>
  match ans with
  | .fails e => some (e.val, s)
  | _ => some (.success, s)

/-- What an operation uses is there. -/
def Operation.Ready (s : Process) : Operation → Prop
  | .connect => .client ∈ s.live
  | .write => s.conn = true ∧ .req ∈ s.live
  | .read => s.conn = true ∧ .res ∈ s.live
  | .readAll _ => s.conn = true ∧ .data ∈ s.live

instance (s : Process) : (op : Operation) → Decidable (op.Ready s)
  | .connect => inferInstanceAs (Decidable (.client ∈ s.live))
  | .write => inferInstanceAs (Decidable (s.conn = true ∧ .req ∈ s.live))
  | .read => inferInstanceAs (Decidable (s.conn = true ∧ .res ∈ s.live))
  | .readAll _ => inferInstanceAs (Decidable (s.conn = true ∧ .data ∈ s.live))

/-- `client.connect( aio )`, `conn.write(req,aio)`, `conn.read(res,aio)`,
`conn.read_all(aio)`. -/
def start (op : Operation) : Action Unit := fun _ _ s =>
  if .aio ∈ s.live ∧ s.op = none ∧ op.Ready s then some ((), { s with op := some op })
  else some ((), { s with fault := true })

/-- What an operation does when it works. -/
def Operation.complete (s : Process) : Operation → Reply → Option Process
  | .connect, .works => some { s with conn := true }
  | .write, .works => some s
  | .read, .response length => some { s with length := length }
  | .readAll size, .bytes body => if body.length = size then some { s with body := body } else none
  | _, _ => none

/-- `aio.wait()`. -/
def wait : Action Unit := fun _ ans s =>
  match s.op, ans with
  | none, _ => some ((), s)
  | some _, .fails e => some ((), { s with op := none, result := e.val })
  | some op, ans => (op.complete s ans).map fun s => ((), { s with op := none, result := .success })

/-- `aio.result()`. -/
def result : Action Error := fun _ _ s => some (s.result, s)

/-- `res.get_header("Content-Length")`. -/
def getLength : Action (Option (List UInt8)) := fun _ _ s => some (s.length, s)

/-- `fwrite(data.data(), 1, data.size(), stdout)`. -/
def fwrite : Action Unit := fun _ _ s => some ((), { s with printed := s.printed ++ [s.body] })

/-- `return` in `main`. -/
def exitWith (code : ℕ) : Prog Unit Reply Process Unit :=
  .act (fun _ _ s => some ((), { s with returned := some code })) .pure

/-! ### The program -/

/-- `atoi`, where a `long` goes up to `max`. -/
def atoi (max : ℕ) (s : List UInt8) : BitVec 32 := .ofInt 32 (Perf.strtol max s).1

/-- An `int` as a `size_t`. -/
def size (len : BitVec 32) : ℕ := (len.signExtend 64).toNat

/-- `aio.wait();`, and the throw of what went wrong. -/
def finish : Code Unit := do
  Code.act wait
  let result ← Code.act result
  if result ≠ .success then throw ⟨result, ""⟩

/-- What `main` does with the body of the response. -/
def receive (len : BitVec 32) : Code ℕ := do
  checked allocData "nng_alloc"
  Code.within (free .data) do
    checked call "nng_aio_set_iov"
    Code.act (start (.readAll (size len)))
    finish
    Code.act fwrite
    return 0

/-- What `main` does with its connection. -/
def transact (max : ℕ) : Code ℕ := do
  checked (acquire .req) "nng_http_req_alloc"
  Code.within (free .req) do
    Code.act (start .write)
    finish
    checked (acquire .res) "nng_http_res_alloc"
    Code.within (free .res) do
      Code.act (start .read)
      finish
      match (← Code.act getLength) with
      | none => return 1
      | some hdr => if atoi max hdr = 0 then return 0 else receive (atoi max hdr)

/-- The try block of `main`, with a URL. -/
def fetch (max : ℕ) : Code ℕ := do
  checked (acquire .url) "nng_url_parse"
  Code.within (free .url) do
    checked (acquire .client) "nng_http_client_alloc"
    Code.within (free .client) do
      checked (acquire .aio) "nng_aio_alloc"
      Code.within (free .aio) do
        Code.act (start .connect)
        finish
        transact max

/-- `int main( int argc, char** argv )`. -/
def main (max : ℕ) : Prog Unit Reply Process Unit :=
  Code.handle (fetch max) exitWith fun _ => exitWith 1

/-! ### Runs -/

abbrev World := Pool Unit Reply Process

def Step (w : World) (ans : Reply) (w' : World) : Prop := w.run () ans = some w'

def Process.init : Process where
  live := []
  conn := false
  op := none
  result := .success
  length := none
  body := []
  printed := []
  returned := none
  fault := false

def World.init (max : ℕ) : World where
  shared := .init
  code _ := some (main max)
  exited := false

/-! ### Contracts -/

/-- `main` is alone, so that it knows the whole state. -/
def logic : Logic Unit Process Process where
  Inv s := s.fault = false
  Sees _ s v := s = v

section Contracts

variable {v : Process} {β : Type} {h : Handle}

theorem spec_of {f : Action β} {P : β → Process → Prop}
    (hf : v.fault = false → ∀ ans b s, f () ans v = some (b, s) → s.fault = false ∧ P b s) :
    logic.Spec () f v P := by
  rintro s ans b s' hinv rfl hrun
  obtain ⟨hfault, hP⟩ := hf hinv ans b s' hrun
  exact ⟨hfault, fun u hu => absurd rfl hu, s', rfl, hP⟩

theorem spec_acquire {P : Error → Process → Prop} (herror : ∀ e : Failure, P e.val v)
    (hok : P .success { v with live := h :: v.live }) : logic.Spec () (acquire h) v P := by
  apply spec_of
  intro hfault ans b s hrun
  cases ans with
  | fails e =>
      obtain ⟨rfl, rfl⟩ := Prod.mk.inj (Option.some.inj hrun)
      exact ⟨hfault, herror e⟩
  | _ =>
      obtain ⟨rfl, rfl⟩ := Prod.mk.inj (Option.some.inj hrun)
      exact ⟨hfault, hok⟩

theorem spec_allocData {P : Error → Process → Prop} (herror : P .nomem v)
    (hok : P .success { v with live := .data :: v.live }) : logic.Spec () allocData v P := by
  apply spec_of
  intro hfault ans b s hrun
  cases ans with
  | fails e =>
      obtain ⟨rfl, rfl⟩ := Prod.mk.inj (Option.some.inj hrun)
      exact ⟨hfault, herror⟩
  | _ =>
      obtain ⟨rfl, rfl⟩ := Prod.mk.inj (Option.some.inj hrun)
      exact ⟨hfault, hok⟩

theorem spec_call {P : Error → Process → Prop} (hP : ∀ e, P e v) : logic.Spec () call v P := by
  apply spec_of
  intro hfault ans b s hrun
  cases ans with
  | _ =>
      obtain ⟨rfl, rfl⟩ := Prod.mk.inj (Option.some.inj hrun)
      exact ⟨hfault, hP _⟩

theorem spec_free {P : Unit → Process → Prop} (hlive : h ∈ v.live) (hop : v.op = none)
    (hP : P () { v with live := v.live.erase h }) : logic.Spec () (free h) v P := by
  apply spec_of
  intro hfault ans b s hrun
  rw [free, if_pos ⟨hlive, hop⟩] at hrun
  obtain ⟨rfl, rfl⟩ := Prod.mk.inj (Option.some.inj hrun)
  exact ⟨hfault, hP⟩

theorem spec_start {op : Operation} {P : Unit → Process → Prop} (haio : .aio ∈ v.live)
    (hop : v.op = none) (hready : op.Ready v) (hP : P () { v with op := some op }) :
    logic.Spec () (start op) v P := by
  apply spec_of
  intro hfault ans b s hrun
  rw [start, if_pos ⟨haio, hop, hready⟩] at hrun
  obtain ⟨rfl, rfl⟩ := Prod.mk.inj (Option.some.inj hrun)
  exact ⟨hfault, hP⟩

/-- A statement that only reads, or that changes no handle. -/
theorem spec_does {f : Process → β × Process} {P : β → Process → Prop}
    (hf : (f v).2.fault = v.fault) (hP : P (f v).1 (f v).2) :
    logic.Spec () (fun _ _ s => some (f s) : Action β) v P := by
  apply spec_of
  intro hfault ans b s hrun
  obtain rfl : (f v).1 = b := congrArg Prod.fst (Option.some.inj hrun)
  obtain rfl : (f v).2 = s := congrArg Prod.snd (Option.some.inj hrun)
  exact ⟨hf.trans hfault, hP⟩

/-- An operation comes to its end. -/
theorem spec_wait {op : Operation} {P : Unit → Process → Prop} (hop : v.op = some op)
    (herror : ∀ e : Failure, P () { v with op := none, result := e.val })
    (hok : ∀ ans s, op.complete v ans = some s →
      s.fault = v.fault ∧ P () { s with op := none, result := .success }) :
    logic.Spec () wait v P := by
  apply spec_of
  intro hfault ans b s hrun
  unfold wait at hrun
  rw [hop] at hrun
  cases ans with
  | fails e =>
      obtain ⟨rfl, rfl⟩ := Prod.mk.inj (Option.some.inj hrun)
      exact ⟨hfault, herror e⟩
  | _ =>
      obtain ⟨s', hs', heq⟩ := Option.map_eq_some_iff.mp hrun
      obtain ⟨rfl, rfl⟩ := Prod.mk.inj heq
      obtain ⟨hsame, hP⟩ := hok _ s' hs'
      exact ⟨hsame.trans hfault, hP⟩

theorem ok_finish {op : Operation} {Q : Unit → Process → Prop} {E : Exception → Process → Prop}
    (hop : v.op = some op) (herror : ∀ e r, E e { v with op := none, result := r })
    (hok : ∀ ans s, op.complete v ans = some s →
      s.fault = v.fault ∧ Q () { s with op := none, result := .success }) :
    logic.Ok () finish Q E v := by
  apply Logic.Ok.bind
  apply Logic.Ok.act
  apply spec_wait hop
  · intro e
    apply Logic.Ok.bind
    apply Logic.Ok.act
    apply spec_does (f := fun s => (s.result, s)) rfl
    rw [if_pos e.property]
    exact Logic.Ok.throw (herror _ _)
  · intro ans s hs
    refine ⟨(hok ans s hs).1, ?_⟩
    apply Logic.Ok.bind
    apply Logic.Ok.act
    apply spec_does (f := fun s => (s.result, s)) rfl
    rw [if_neg (not_not.mpr rfl)]
    exact Logic.Ok.pure (hok ans s hs).2

end Contracts

/-! ### The program keeps them -/

section Program

variable {v : Process} {hs : List Handle} {max : ℕ}

/-- `main` has these handles, and has not printed anything yet. -/
structure Holds (hs : List Handle) (v : Process) : Prop where
  live : v.live = hs
  idle : v.op = none
  printed : v.printed = []

/-- What `main` prints before it returns: the body, as long as the header says, unless the
header is missing or says that there is none. -/
inductive Prints (max : ℕ) (v : Process) : ℕ → Prop
  | missing (length : v.length = none) (printed : v.printed = []) : Prints max v 1
  | empty (hdr : List UInt8) (length : v.length = some hdr) (zero : atoi max hdr = 0)
      (printed : v.printed = []) : Prints max v 0
  | whole (hdr : List UInt8) (length : v.length = some hdr) (printed : v.printed = [v.body])
      (long : v.body.length = size (atoi max hdr)) : Prints max v 0

theorem Prints.congr {v' : Process} {code : ℕ} (h : Prints max v code)
    (hlength : v'.length = v.length) (hbody : v'.body = v.body)
    (hprinted : v'.printed = v.printed) : Prints max v' code := by
  cases h with
  | missing length printed => exact .missing (hlength.trans length) (hprinted.trans printed)
  | empty hdr length zero printed =>
      exact .empty hdr (hlength.trans length) zero (hprinted.trans printed)
  | whole hdr length printed long =>
      exact .whole hdr (hlength.trans length) (by rw [hprinted, hbody, printed])
        (by rw [hbody, long])

/-- `main` leaves a scope to return a code. -/
structure Leaves (max : ℕ) (hs : List Handle) (code : ℕ) (v : Process) : Prop where
  live : v.live = hs
  idle : v.op = none
  conn : v.conn = true
  prints : Prints max v code

/-- The scope of an object. -/
theorem ok_scope {h : Handle} {x : Code ℕ}
    (hx : logic.Ok () x (fun code => Leaves max (h :: hs) code) (fun _ => Holds (h :: hs)) v) :
    logic.Ok () (x.within (free h)) (fun code => Leaves max hs code) (fun _ => Holds hs) v := by
  apply Logic.Ok.within
  apply Logic.Safe.mono hx
  intro r w hw
  have herase : (h :: hs).erase h = hs := List.erase_cons_head h hs
  cases r with
  | error e =>
      apply spec_free (by simp [hw.live]) hw.idle
      exact ⟨by rw [hw.live, herase], hw.idle, hw.printed⟩
  | ok code =>
      apply spec_free (by simp [hw.live]) hw.idle
      exact ⟨by rw [hw.live, herase], hw.idle, hw.conn, hw.prints.congr rfl rfl rfl⟩

/-- A constructor that throws leaves no object, and otherwise there is one more. -/
theorem ok_acquire {h : Handle} {source : String} {x : Code ℕ} (hv : Holds hs v)
    (hx : ∀ w, Holds (h :: hs) w → w.conn = v.conn → w.length = v.length →
      logic.Ok () x (fun code => Leaves max (h :: hs) code) (fun _ => Holds (h :: hs)) w) :
    logic.Ok () (do
      checked (acquire h) source
      x.within (free h)) (fun code => Leaves max hs code) (fun _ => Holds hs) v := by
  apply Logic.Ok.bind
  apply ok_checked
  apply spec_acquire
  · intro e
    rw [if_neg e.property]
    exact hv
  · rw [if_pos rfl]
    apply ok_scope
    exact hx _ ⟨by rw [hv.live], hv.idle, hv.printed⟩ rfl rfl

/-- An operation changes nothing that `main` holds. -/
theorem complete_keeps {op : Operation} {ans : Reply} {s : Process}
    (h : op.complete v ans = some s) :
    s.live = v.live ∧ s.printed = v.printed ∧ s.fault = v.fault := by
  cases op with
  | connect =>
      cases ans with
      | works =>
          rw [← Option.some.inj h]
          exact ⟨rfl, rfl, rfl⟩
      | _ => cases h
  | write =>
      cases ans with
      | works =>
          rw [← Option.some.inj h]
          exact ⟨rfl, rfl, rfl⟩
      | _ => cases h
  | read =>
      cases ans with
      | response length =>
          rw [← Option.some.inj h]
          exact ⟨rfl, rfl, rfl⟩
      | _ => cases h
  | readAll size =>
      cases ans with
      | bytes body =>
          obtain ⟨-, heq⟩ := Option.ite_none_right_eq_some.mp h
          rw [← Option.some.inj heq]
          exact ⟨rfl, rfl, rfl⟩
      | _ => cases h

/-- An operation is started, and waited for. -/
theorem ok_operation {op : Operation} {x : Code ℕ} (hv : Holds hs v) (haio : .aio ∈ hs)
    (hready : op.Ready v)
    (hx : ∀ ans s w, op.complete { v with op := some op } ans = some s →
      w = { s with op := none, result := .success } → Holds hs w →
      logic.Ok () x (fun code => Leaves max hs code) (fun _ => Holds hs) w) :
    logic.Ok () (do
      Code.act (start op)
      finish
      x) (fun code => Leaves max hs code) (fun _ => Holds hs) v := by
  apply Logic.Ok.bind
  apply Logic.Ok.act
  apply spec_start (by rwa [hv.live]) hv.idle hready
  apply Logic.Ok.bind
  apply ok_finish rfl
  · exact fun _ _ => ⟨hv.live, rfl, hv.printed⟩
  · intro ans s hs
    obtain ⟨hlive, hprinted, hfault⟩ := complete_keeps hs
    refine ⟨hfault, hx ans s _ hs rfl ⟨?_, rfl, ?_⟩⟩
    · exact hlive.trans hv.live
    · exact hprinted.trans hv.printed

/-- The body of the response is read and printed. -/
theorem ok_receive {hdr : List UInt8} (hv : Holds hs v) (haio : .aio ∈ hs)
    (hconn : v.conn = true) (hlength : v.length = some hdr) :
    logic.Ok () (receive (atoi max hdr)) (fun code => Leaves max hs code) (fun _ => Holds hs)
      v := by
  apply Logic.Ok.bind
  apply ok_checked
  apply spec_allocData
  · exact hv
  · rw [if_pos rfl]
    apply ok_scope
    apply Logic.Ok.bind
    apply ok_checked
    apply spec_call
    intro e
    have hholds : Holds (.data :: hs) { v with live := .data :: v.live } :=
      ⟨by rw [hv.live], hv.idle, hv.printed⟩
    split
    · apply ok_operation hholds (List.mem_cons_of_mem _ haio)
      · exact ⟨hconn, List.mem_cons_self ..⟩
      · intro ans s w hcomplete hw hholds'
        apply Logic.Ok.bind
        apply Logic.Ok.act
        apply spec_does (f := fun s => ((), { s with printed := s.printed ++ [s.body] })) rfl
        apply Logic.Ok.pure
        cases ans with
        | bytes body =>
            obtain ⟨hlong, heq⟩ := Option.ite_none_right_eq_some.mp hcomplete
            rw [← Option.some.inj heq] at hw
            refine ⟨hholds'.live, hholds'.idle, by rw [hw]; exact hconn, ?_⟩
            refine .whole hdr (by rw [hw]; exact hlength) ?_ (by rw [hw]; exact hlong)
            -- nothing was printed before
            show w.printed ++ [w.body] = [w.body]
            rw [hholds'.printed]
            rfl
        | _ => cases hcomplete
    · exact hholds

/-- The request is sent and answered. -/
theorem ok_transact (hv : Holds hs v) (haio : .aio ∈ hs) (hconn : v.conn = true) :
    logic.Ok () (transact max) (fun code => Leaves max hs code) (fun _ => Holds hs) v := by
  apply ok_acquire hv
  intro w hw hwconn _
  apply ok_operation hw (List.mem_cons_of_mem _ haio)
  · exact ⟨hwconn.trans hconn, by rw [hw.live]; exact List.mem_cons_self ..⟩
  · intro ans s w' hcomplete hw' hholds
    have hconn' : w'.conn = true := by
      cases ans with
      | works =>
          rw [hw', ← Option.some.inj hcomplete]
          exact hwconn.trans hconn
      | _ => cases hcomplete
    apply ok_acquire hholds
    intro u hu huconn _
    apply ok_operation hu (List.mem_cons_of_mem _ (List.mem_cons_of_mem _ haio))
    · exact ⟨huconn.trans hconn', by rw [hu.live]; exact List.mem_cons_self ..⟩
    · intro ans s u' hcomplete hu' hholds'
      have hconn'' : u'.conn = true := by
        cases ans with
        | response length =>
            rw [hu', ← Option.some.inj hcomplete]
            exact huconn.trans hconn'
        | _ => cases hcomplete
      apply Logic.Ok.bind
      apply Logic.Ok.act
      apply spec_does (f := fun s => (s.length, s)) rfl
      cases hlength : u'.length with
      | none =>
          apply Logic.Ok.pure
          exact ⟨hholds'.live, hholds'.idle, hconn'', .missing hlength hholds'.printed⟩
      | some hdr =>
          simp only
          split
          · rename_i hzero
            apply Logic.Ok.pure
            exact ⟨hholds'.live, hholds'.idle, hconn'', .empty hdr hlength hzero hholds'.printed⟩
          · apply ok_receive hholds' _ hconn'' hlength
            exact List.mem_cons_of_mem _ (List.mem_cons_of_mem _ haio)

/-- `main` has returned a code, and its objects are gone. After an exception nothing has been
printed, and otherwise there is a connection. -/
structure Done (max : ℕ) (v : Process) : Prop where
  live : v.live = []
  idle : v.op = none
  returned : ∃ code, v.returned = some code ∧
    (code = 1 ∧ v.printed = [] ∨ v.conn = true ∧ Prints max v code)

theorem safe_exitWith {code : ℕ} (h : Done max { v with returned := some code }) :
    logic.Safe () (exitWith code) (fun _ => Done max) v :=
  spec_does (f := fun s => ((), { s with returned := some code })) rfl h

theorem ok_fetch (max : ℕ) :
    logic.Ok () (fetch max) (fun code => Leaves max [] code) (fun _ => Holds []) .init := by
  apply ok_acquire ⟨rfl, rfl, rfl⟩
  intro _ hurl _ _
  apply ok_acquire hurl
  intro _ hclient _ _
  apply ok_acquire hclient
  intro v haio _ _
  apply ok_operation haio (by simp)
  · show Handle.client ∈ v.live
    rw [haio.live]
    simp
  · intro ans s w hcomplete hw hholds
    apply ok_transact hholds (by simp)
    cases ans with
    | works => rw [hw, ← Option.some.inj hcomplete]
    | _ => cases hcomplete

theorem safe_main (max : ℕ) : logic.Safe () (main max) (fun _ => Done max) .init := by
  apply Logic.Ok.handle
  apply Logic.Safe.mono (ok_fetch max)
  intro r v hv
  cases r with
  | error e =>
      apply safe_exitWith
      exact ⟨hv.live, hv.idle, 1, rfl, .inl ⟨rfl, hv.printed⟩⟩
  | ok code =>
      apply safe_exitWith
      exact ⟨hv.live, hv.idle, code, rfl, .inr ⟨hv.conn, hv.prints.congr rfl rfl rfl⟩⟩

end Program

/-! ### Runs -/

section Runs

variable {max : ℕ} {w : World} {tr : List (Transition World Reply)}

theorem sound_init (max : ℕ) : Pool.Sound logic (Done max) (World.init max) := by
  refine ⟨rfl, ?_, fun t ht => by cases ht⟩
  intro t p ht
  obtain rfl : main max = p := Option.some.inj ht
  exact ⟨_, rfl, safe_main max⟩

/-- The response has a body of two bytes. -/
def fetched : List Reply :=
  List.replicate 12 .works ++ [.response (some [50])] ++ List.replicate 5 .works ++
    [.bytes [104, 105]] ++ List.replicate 9 .works

end Runs

end Nngpp.HttpClient
