import Nngpp.Buffer.Ledger
import Nngpp.HandOver.Shelf

/-!
Hand-overs to sockets and servers over whole runs.

The world has the three things that are handed over: blocks, in buffers; messages,
which sockets take; and handlers, which servers take and give back. Each operation
works on one of them, so that the world is accounted for as soon as its parts are.

`AllOrNothing` is what a program can rely on when it calls one of the three
functions with an rvalue: after an exception nothing has changed, so it can call
again, and after a return the object is null and what it held is nng's. `GivesBack`
is the same for `remove_handler`.
-/

namespace Nngpp.HandOver

open Function Lib

/-- Sockets are known by their ids. Servers are counted, because nng shares one
among all who ask for the same address. -/
structure World (O B M H S : Type) where
  memory : Buffer.Memory O B
  msgs : Shelf O M ℕ
  handlers : Shelf O H S
  servers : Pointer.Table O S
  refs : S → ℕ

variable {O B M H S : Type}

abbrev Call (O B M H S : Type) := EStateM Exception (World O B M H S)

def onMemory (x : Buffer.Call O B Unit) : Call O B M H S Unit :=
  within World.memory (fun w m => { w with memory := m }) x

def onMsgs (x : Shelf.Call O M ℕ Unit) : Call O B M H S Unit :=
  within World.msgs (fun w s => { w with msgs := s }) x

def onHandlers (x : Shelf.Call O H S Unit) : Call O B M H S Unit :=
  within World.handlers (fun w s => { w with handlers := s }) x

section Model

variable [DecidableEq O] [DecidableEq B] [DecidableEq M] [DecidableEq H] [DecidableEq S]

/-! ### The functions -/

/-- `socket_view::send( buffer&& buf, int flags )`. -/
def sendBuffer (alloc : AllocFlag) (buf : O) (flags : BitVec 32) (r : Error) :
    Call O B M H S Unit :=
  onMemory (Buffer.send alloc buf flags r)

/-- `socket_view::send( view buf, int flags )`. -/
def sendView (alloc : AllocFlag) (buf : Buffer B) (flags : BitVec 32) (r : Error) :
    Call O B M H S Unit :=
  onMemory (Buffer.sendView alloc buf flags r)

/-- `socket_view::send( msg&& m, int flags )`. -/
def sendMsg (socket : ℕ) (m : O) (_flags : BitVec 32) (r : Error) : Call O B M H S Unit :=
  onMsgs (Shelf.handOver "nng_sendmsg" m socket r)

/-- `server_view::add_handler( handler&& h )`. -/
def addHandler (server : S) (h : O) (r : Error) : Call O B M H S Unit :=
  onHandlers (Shelf.handOver "nng_http_server_add_handler" h server r)

/-- `handler server_view::remove_handler( handler_view h )`, into the object `out`. -/
def removeHandler (server : S) (h : Option H) (out : O) (e : Failure) : Call O B M H S Unit :=
  onHandlers (Shelf.takeBack "nng_http_server_del_handler" h server out e)

/-- `explicit server( url_view u )`. -/
def holdServer (this : O) (ans : Answer S) : Call O B M H S Unit := do
  let s ← orThrow ans "nng_http_server_hold"
  modify fun w => { w with
    refs := update w.refs s (w.refs s + 1)
    servers := Pointer.adopt w.servers this (some s) }

/-- `nng_http_server_release`: the handlers of a server go with its last user. -/
def World.releaseServer (w : World O B M H S) (s : S) : World O B M H S :=
  let w := { w with refs := update w.refs s (w.refs s - 1) }
  if w.refs s = 0 then { w with handlers := w.handlers.disposeAll s } else w

/-- `~server()`. -/
def World.destroyServer (w : World O B M H S) (this : O) : World O B M H S :=
  let r := Pointer.destroy w.servers this
  let w := { w with servers := r.1 }
  match r.2 with
  | none => w
  | some s => w.releaseServer s

/-! ### Runs -/

/-- The operations of a program, with nng's answers: construction, the calls, and
destruction; a block that the caller gets for itself; and nng being done with a
message. -/
inductive Op (O B M H S : Type)
  | makeBuffer (this : O) (sz : ℕ) (ans : Option (B × List UInt8))
  | handOut (d : B) (bytes : List UInt8)
  | makeMsg (this : O) (ans : Answer M)
  | makeHandler (source : String) (this : O) (ans : Answer H)
  | holdServer (this : O) (ans : Answer S)
  | sendBuffer (buf : O) (flags : BitVec 32) (r : Error)
  | sendView (buf : Buffer B) (flags : BitVec 32) (r : Error)
  | sendMsg (socket : ℕ) (m : O) (flags : BitVec 32) (r : Error)
  | addHandler (server : S) (h : O) (r : Error)
  | removeHandler (server : S) (h : Option H) (out : O) (e : Failure)
  | destroyBuffer (this : O)
  | destroyMsg (this : O)
  | destroyHandler (this : O)
  | destroyServer (this : O)
  | dispose (m : M)

def Op.call (alloc : AllocFlag) : Op O B M H S → Call O B M H S Unit
  | .makeBuffer this sz ans => onMemory (Buffer.sized this sz ans)
  | .handOut d bytes => onMemory (Buffer.Op.call alloc (.handOut d bytes))
  | .makeMsg this ans => onMsgs (Shelf.acquire "nng_msg_alloc" this ans)
  | .makeHandler source this ans => onHandlers (Shelf.acquire source this ans)
  | .holdServer this ans => HandOver.holdServer this ans
  | .sendBuffer buf flags r => HandOver.sendBuffer alloc buf flags r
  | .sendView buf flags r => HandOver.sendView alloc buf flags r
  | .sendMsg socket m flags r => HandOver.sendMsg socket m flags r
  | .addHandler server h r => HandOver.addHandler server h r
  | .removeHandler server h out e => HandOver.removeHandler server h out e
  | .destroyBuffer this => onMemory (modify fun m => m.destroy this)
  | .destroyMsg this => onMsgs (modify fun s => s.destroy this)
  | .destroyHandler this => onHandlers (modify fun s => s.destroy this)
  | .destroyServer this => modify fun w => w.destroyServer this
  | .dispose m => onMsgs (modify fun s => s.dispose m)

/-- What the program and nng must see to. Nothing is asked of the flags, of the
codes, of the memory that a view is sent of, or of the handler that a server is
asked to remove. -/
def Enabled (w : World O B M H S) : Op O B M H S → Prop
  | .makeBuffer this sz ans => w.memory.obj this = none ∧ Buffer.Allocates w.memory sz ans
  | .handOut d _ => w.memory.heap d = none
  | .makeMsg this ans => w.msgs.obj this = none ∧
      ∀ m, ans = .ok m → w.msgs.heap m = none ∧ w.msgs.taken m = none
  | .makeHandler _ this ans => w.handlers.obj this = none ∧
      ∀ h, ans = .ok h → w.handlers.heap h = none ∧ w.handlers.taken h = none
  | .holdServer this _ => w.servers this = none
  | .sendBuffer buf _ _ => w.memory.obj buf ≠ none
  | .sendView _ _ _ => True
  | .sendMsg _ m _ _ => w.msgs.obj m ≠ none
  | .addHandler server h _ => w.refs server ≠ 0 ∧ w.handlers.obj h ≠ none
  | .removeHandler server _ out _ => w.refs server ≠ 0 ∧ w.handlers.obj out = none
  | .destroyBuffer this => w.memory.obj this ≠ none
  | .destroyMsg this => w.msgs.obj this ≠ none
  | .destroyHandler this => w.handlers.obj this ≠ none
  | .destroyServer this => w.servers this ≠ none
  | .dispose m => w.msgs.taken m ≠ none

def exec (alloc : AllocFlag) (w : World O B M H S) (op : Op O B M H S) : World O B M H S :=
  leaves (op.call alloc) w

def Step (alloc : AllocFlag) (w : World O B M H S) (op : Op O B M H S) (w' : World O B M H S) :
    Prop :=
  Enabled w op ∧ w' = exec alloc w op

def World.init : World O B M H S where
  memory := Buffer.Memory.init fun _ => none
  msgs := Shelf.init
  handlers := Shelf.init
  servers _ := none
  refs _ := 0

/-! ### What is claimed -/

/-- Blocks, messages and handlers are all accounted for. -/
structure Sound (w : World O B M H S) : Prop where
  memory : Buffer.Balanced w.memory
  msgs : Accounted w.msgs
  handlers : Accounted w.handlers

/-- The argument of a call that hands something over. -/
inductive Argument (O : Type)
  | buffer (o : O)
  | msg (o : O)
  | handler (o : O)

def Op.handsOver : Op O B M H S → Option (Argument O)
  | .sendBuffer buf _ _ => some (.buffer buf)
  | .sendMsg _ m _ _ => some (.msg m)
  | .addHandler _ h _ => some (.handler h)
  | _ => none

/-- The argument is null, and what it held before is not the application's any
more: nng has freed the block, or has the message or the handler. -/
def World.Gone (w w' : World O B M H S) : Argument O → Prop
  | .buffer o => w'.memory.obj o = some ⟨none, 0⟩ ∧
      ∀ d, (w.memory.fields o).d = some d → w'.memory.heap d = none
  | .msg o => w'.msgs.obj o = some none ∧
      ∀ t, Pointer.get w.msgs.obj o = some t → w'.msgs.heap t = none ∧ w'.msgs.taken t ≠ none
  | .handler o => w'.handlers.obj o = some none ∧
      ∀ t, Pointer.get w.handlers.obj o = some t →
        w'.handlers.heap t = none ∧ w'.handlers.taken t ≠ none

/-- A hand-over that throws has changed nothing, and one that returns has handed
its argument over. -/
structure AllOrNothing (alloc : AllocFlag) (w : World O B M H S) (op : Op O B M H S) : Prop where
  throws : ∀ arg x w', op.handsOver = some arg → (op.call alloc).run w = .error x w' → w' = w
  returns : ∀ arg w', op.handsOver = some arg → (op.call alloc).run w = .ok () w' → w.Gone w' arg

/-- `remove_handler` returns exactly for a handler that the server has, and then
the new object has it and the server does not; else it throws and has changed
nothing. -/
structure GivesBack (alloc : AllocFlag) (w : World O B M H S) (op : Op O B M H S) : Prop where
  throws : ∀ server h out e x w', op = .removeHandler server h out e →
    (op.call alloc).run w = .error x w' →
      w' = w ∧ ∀ t, h = some t → w.handlers.taken t ≠ some server
  returns : ∀ server h out e w', op = .removeHandler server h out e →
    (op.call alloc).run w = .ok () w' →
      ∃ t, h = some t ∧ w.handlers.taken t = some server ∧
        w'.handlers.obj out = some (some t) ∧ w'.handlers.heap t ≠ none ∧
        w'.handlers.taken t = none

end Model

/-! ### The step lemma -/

theorem sound_init : Sound (World.init : World O B M H S) where
  memory := Buffer.balanced_init _
  msgs := accounted_init
  handlers := accounted_init

variable {w : World O B M H S}

theorem Sound.onMemory (hw : Sound w) {x : Buffer.Call O B Unit}
    (hx : Buffer.Balanced (leaves x w.memory)) : Sound (leaves (onMemory x) w) := by
  rw [HandOver.onMemory, leaves_within]
  exact ⟨hx, hw.msgs, hw.handlers⟩

theorem Sound.onMsgs (hw : Sound w) {x : Shelf.Call O M ℕ Unit}
    (hx : Accounted (leaves x w.msgs)) : Sound (leaves (onMsgs x) w) := by
  rw [HandOver.onMsgs, leaves_within]
  exact ⟨hw.memory, hx, hw.handlers⟩

theorem Sound.onHandlers (hw : Sound w) {x : Shelf.Call O H S Unit}
    (hx : Accounted (leaves x w.handlers)) : Sound (leaves (onHandlers x) w) := by
  rw [HandOver.onHandlers, leaves_within]
  exact ⟨hw.memory, hw.msgs, hx⟩

theorem Sound.destroyServer [DecidableEq O] [DecidableEq S] (hw : Sound w) (this : O) :
    Sound (w.destroyServer this) := by
  cases hs : (Pointer.destroy w.servers this).2 with
  | none => simpa [World.destroyServer, hs] using ⟨hw.memory, hw.msgs, hw.handlers⟩
  | some s =>
      simp only [World.destroyServer, hs, World.releaseServer]
      split
      · exact ⟨hw.memory, hw.msgs, hw.handlers.disposeAll s⟩
      · exact ⟨hw.memory, hw.msgs, hw.handlers⟩

/-- A hand-over keeps the shelf accounted for, whether nng accepts or refuses. -/
theorem Accounted.handOver {O T N : Type} [DecidableEq O] [DecidableEq T] {s : Shelf O T N}
    (hs : Accounted s) (source : String) (this : O) (n : N) (r : Error) :
    Accounted (leaves (Shelf.handOver source this n r) s) := by
  by_cases hr : r = .success
  · subst hr
    obtain ⟨s', hrun, hs', -⟩ := run_handOver_success hs source this n
    rwa [leaves_of_ok hrun]
  · rwa [leaves_of_error (run_handOver_failure source this n hr)]

variable [DecidableEq O] [DecidableEq B] [DecidableEq M] [DecidableEq H] [DecidableEq S]

/-- Every enabled operation keeps everything accounted for. -/
theorem sound_step (alloc : AllocFlag) (hw : Sound w) {op : Op O B M H S} (hop : Enabled w op) :
    Sound (exec alloc w op) := by
  unfold exec
  cases op with
  | makeBuffer this sz ans =>
      exact hw.onMemory (Buffer.balanced_step alloc hw.memory (.sized this sz ans) hop)
  | handOut d bytes =>
      exact hw.onMemory (Buffer.balanced_step alloc hw.memory (.handOut d bytes) hop)
  | makeMsg this ans => exact hw.onMsgs (hw.msgs.acquire _ hop.1 hop.2)
  | makeHandler source this ans => exact hw.onHandlers (hw.handlers.acquire _ hop.1 hop.2)
  | holdServer this ans =>
      match ans with
      | .error e =>
          have hrun : (holdServer this (.error e)).run w =
              .error ⟨e.val, "nng_http_server_hold"⟩ w := by simp [holdServer]
          rwa [Op.call, leaves_of_error hrun]
      | .ok s => exact ⟨hw.memory, hw.msgs, hw.handlers⟩
  | sendBuffer buf flags r =>
      exact hw.onMemory (Buffer.balanced_step alloc hw.memory (.send buf flags r) hop)
  | sendView buf flags r =>
      refine hw.onMemory ?_
      rw [Buffer.leaves_sendView]
      exact hw.memory
  | sendMsg socket m flags r => exact hw.onMsgs (hw.msgs.handOver _ m socket r)
  | addHandler server h r => exact hw.onHandlers (hw.handlers.handOver _ h server r)
  | removeHandler server h out e => exact hw.onHandlers (hw.handlers.takeBack _ h server hop.2 e)
  | destroyBuffer this =>
      exact hw.onMemory (Buffer.balanced_step alloc hw.memory (.destroy this) hop)
  | destroyMsg this => exact hw.onMsgs (hw.msgs.destroy this)
  | destroyHandler this => exact hw.onHandlers (hw.handlers.destroy this)
  | destroyServer this => exact hw.destroyServer this
  | dispose m => exact hw.onMsgs (hw.msgs.dispose m)

/-! ### The calls -/

omit [DecidableEq M] [DecidableEq H] [DecidableEq S] in
theorem run_sendBuffer_success (alloc : AllocFlag) (hw : Sound w) (buf : O) (flags : BitVec 32) :
    ∃ w', (sendBuffer alloc buf flags .success).run w = .ok () w' ∧ w.Gone w' (.buffer buf) := by
  refine ⟨_, run_within_ok (Buffer.run_send_success w.memory alloc buf flags), by simp, ?_⟩
  intro d hd
  obtain ⟨s, hs⟩ := Buffer.held_of_d hd
  have hsize := Buffer.blocks_ne_none_iff_map.mp ((Buffer.balanced_iff.mp hw.memory).1.live hs)
  have hfields := Buffer.fields_of_some (Buffer.held_eq_some.mp hs)
  simp [Buffer.Memory.freeIf, hfields, Buffer.Memory.nngFree_of_size hsize]

/-- The three hand-overs in one: what a call with this argument does. -/
theorem run_handsOver (alloc : AllocFlag) (hw : Sound w) {op : Op O B M H S} {arg : Argument O}
    (harg : op.handsOver = some arg) :
    (∃ w', (op.call alloc).run w = .ok () w' ∧ w.Gone w' arg) ∨
      ∃ x, (op.call alloc).run w = .error x w := by
  cases op with
  | sendBuffer buf flags r =>
      obtain rfl := Option.some.inj harg
      by_cases hr : r = .success
      · subst hr
        exact .inl (run_sendBuffer_success alloc hw buf flags)
      · exact .inr ⟨_, run_within_error (Buffer.run_send_failure w.memory alloc buf flags hr)⟩
  | sendMsg socket m flags r =>
      obtain rfl := Option.some.inj harg
      by_cases hr : r = .success
      · subst hr
        obtain ⟨s', hrun, -, hnull, hgone⟩ := run_handOver_success hw.msgs "nng_sendmsg" m socket
        refine .inl ⟨_, run_within_ok hrun, hnull, fun t ht => ?_⟩
        simp [hgone t ht]
      · exact .inr ⟨_, run_within_error (run_handOver_failure _ m socket hr)⟩
  | addHandler server h r =>
      obtain rfl := Option.some.inj harg
      by_cases hr : r = .success
      · subst hr
        obtain ⟨s', hrun, -, hnull, hgone⟩ :=
          run_handOver_success hw.handlers "nng_http_server_add_handler" h server
        refine .inl ⟨_, run_within_ok hrun, hnull, fun t ht => ?_⟩
        simp [hgone t ht]
      · exact .inr ⟨_, run_within_error (run_handOver_failure _ h server hr)⟩
  | _ => cases harg

theorem allOrNothing (alloc : AllocFlag) (hw : Sound w) (op : Op O B M H S) :
    AllOrNothing alloc w op := by
  constructor
  · intro arg x w' harg hrun
    obtain ⟨v, hv, -⟩ | ⟨y, hy⟩ := run_handsOver alloc hw harg
    · rw [hv] at hrun; cases hrun
    · rw [hy] at hrun; cases hrun; rfl
  · intro arg w' harg hrun
    obtain ⟨v, hv, hgone⟩ | ⟨y, hy⟩ := run_handsOver alloc hw harg
    · rw [hv] at hrun; cases hrun; exact hgone
    · rw [hy] at hrun; cases hrun

omit [DecidableEq B] [DecidableEq M] in
theorem run_removeHandler (server : S) (h : Option H) (out : O) (e : Failure) :
    (∃ t, h = some t ∧ w.handlers.taken t = some server ∧
      (removeHandler server h out e).run w = .ok () { w with handlers := { w.handlers with
        heap := update w.handlers.heap t (some ())
        obj := Pointer.adopt w.handlers.obj out (some t)
        taken := update w.handlers.taken t none } }) ∨
    (∀ t, h = some t → w.handlers.taken t ≠ some server) ∧
      ∃ x, (removeHandler server h out e).run w = .error x w := by
  by_cases hreg : ∃ t, h = some t ∧ w.handlers.taken t = some server
  · obtain ⟨t, rfl, ht⟩ := hreg
    exact .inl ⟨t, rfl, ht, run_within_ok (run_takeBack_of_taken _ out e ht)⟩
  · push Not at hreg
    exact .inr ⟨hreg, _, run_within_error (run_takeBack_of_ne _ out e hreg)⟩

theorem givesBack (alloc : AllocFlag) (op : Op O B M H S) : GivesBack alloc w op := by
  constructor
  · rintro server h out e x w' rfl hrun
    obtain ⟨t, rfl, ht, hok⟩ | ⟨hreg, y, hy⟩ := run_removeHandler (w := w) server h out e
    · rw [Op.call, hok] at hrun; cases hrun
    · rw [Op.call, hy] at hrun; cases hrun; exact ⟨rfl, hreg⟩
  · rintro server h out e w' rfl hrun
    obtain ⟨t, rfl, ht, hok⟩ | ⟨hreg, y, hy⟩ := run_removeHandler (w := w) server h out e
    · rw [Op.call, hok] at hrun
      cases hrun
      exact ⟨t, rfl, ht, by simp [Pointer.adopt], by simp, by simp⟩
    · rw [Op.call, hy] at hrun; cases hrun

omit [DecidableEq B] [DecidableEq M] in
/-- Adding a handler and removing it again moves it from one object to another. -/
theorem run_add_remove (hw : Sound w) {server : S} {h out : O} {t : H}
    (ht : Pointer.get w.handlers.obj h = some t) (e : Failure) :
    (do addHandler server h .success; removeHandler server (some t) out e).run w =
      .ok () { w with handlers := { w.handlers with
        obj := update (update w.handlers.obj h (some none)) out (some (some t)) } } := by
  simp only [addHandler, removeHandler, onHandlers]
  rw [← within_bind]
  · exact run_within_ok (run_handOver_takeBack hw.handlers _ _ ht server e)
  · exact fun _ _ => rfl
  · exact fun _ _ _ => rfl

/-! ### Whole runs -/

/-- In every run, everything is accounted for at every point, each hand-over was
all or nothing, each removal gave the handler back or changed nothing, and adding
and removing are inverse. -/
theorem handOver_run (alloc : AllocFlag)
    {tr : List (Transition (World O B M H S) (Op O B M H S))} {w : World O B M H S}
    (run : Run (Step alloc) World.init tr w) :
    Sound w ∧
    (∀ e ∈ tr, AllOrNothing alloc e.pre e.label ∧ GivesBack alloc e.pre e.label) ∧
    ∀ server h out t e, Pointer.get w.handlers.obj h = some t →
      (do addHandler server h .success; removeHandler server (some t) out e).run w =
        .ok () { w with handlers := { w.handlers with
          obj := update (update w.handlers.obj h (some none)) out (some (some t)) } } := by
  have hstep : ∀ (w : World O B M H S) op w', Sound w → Step alloc w op w' → Sound w' := by
    rintro w op w' hw ⟨hop, rfl⟩
    exact sound_step alloc hw hop
  have hw := run.invariant sound_init hstep
  refine ⟨hw, fun e he => ?_, fun server h out t e ht => run_add_remove hw ht e⟩
  exact ⟨allOrNothing alloc (run.of_mem sound_init hstep he).1 e.label, givesBack alloc e.label⟩

/-- A message is sent in vain, and again; a handler is added to a server. -/
theorem handOver_run_retry :
    let ops : List (Op ℕ ℕ ℕ ℕ ℕ) :=
      [.makeMsg 0 (.ok 5), .sendMsg 1 0 0 .timedout, .sendMsg 1 0 0 .success,
        .makeHandler "nng_http_handler_alloc" 0 (.ok 6), .holdServer 0 (.ok 9),
        .addHandler 9 0 .success]
    Sound (ops.foldl (exec Buffer.nngFlag) World.init) := by
  intro ops
  have allowed : Run.AllEnabled Enabled (exec Buffer.nngFlag) World.init ops :=
    ⟨⟨rfl, fun _ _ => ⟨rfl, rfl⟩⟩, nofun, nofun, ⟨rfl, fun _ _ => ⟨rfl, rfl⟩⟩, rfl,
      ⟨by decide, nofun⟩, trivial⟩
  exact (handOver_run Buffer.nngFlag (Run.of_exec allowed)).1

end Nngpp.HandOver
