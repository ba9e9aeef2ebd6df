import Nngpp.Calls
import Nngpp.Rep
import Nngpp.Rest.Rot13
import Nngpp.Rest.Served

/-!
The proxy and the REP server of `demo/rest/server.cpp` together.

The peers of the REP socket are the contexts on which the proxy sends: nng delivers
an answer on the context of its message, or not at all. The server is a thread of
its own, and its statements are interleaved with those of the proxy.
-/

namespace Nngpp.Rest

open Function Lib

/-- What is between the proxy and the server. -/
abbrev Between := Rep Context

/-- What nng answers the server: a message of the proxy, or a failure. -/
abbrev Delivery := Answer (Context × List UInt8)

abbrev ServerAction (α : Type) := Unit → Delivery → Between → Option (α × Between)

/-- A call of the server that only answers. -/
def serverCall : ServerAction Error := fun _ ans s => some (ans.code, s)

/-- `nng_recvmsg(s,&m,0)`: one of the messages that nng has taken. -/
def repRecv : ServerAction (Answer (List UInt8)) := fun _ ans s =>
  match ans with
  | .error e => some (.error e, s)
  | .ok q => (s.deliver q).map fun s' => (.ok q.2, s')

/-- `nng_sendmsg(s,m,0)`: an answer to the message that was received last. -/
def repSend (body : List UInt8) : ServerAction Error := fun _ ans s =>
  match ans with
  | .error e => some (e.val, s)
  | .ok _ => some (s.reply body)

/-- `void inproc_server(void*)`, up to its loop. -/
def inprocServer : Prog Unit Delivery Between Unit :=
  Code.orExit do
    Nngpp.checked serverCall "nng_rep0_open"
    Nngpp.checked serverCall "nng_listen"

/-- The body of its loop. -/
def inprocRound : Prog Unit Delivery Between Unit :=
  Code.orExit do
    let body ← Nngpp.made repRecv "nng_recvmsg"
    Nngpp.checked (repSend (rotBody body)) "nng_sendmsg"

/-! ### Both together -/

structure System where
  proxy : World
  server : Pool Unit Delivery Between

/-- A step of the proxy or of its environment, a statement of the server, and the
beginning of another round of its loop. -/
inductive Move
  | proxy (l : Label)
  | server (ans : Delivery)
  | again

/-- The message of a send that is under way on a job. -/
def Shared.asking (s : Shared) (j : JobPtr) : List (Context × List UInt8) :=
  match (s.jobs j).aio.op, (s.jobs j).aio.slot with
  | some (.send (some c)), some m => [(c, m.body)]
  | _, _ => []

/-- What nng takes from the proxy in a step, for the server. -/
def Shared.sends (s : Shared) : Label → List (Context × List UInt8)
  | .sendDone j .success _ => s.asking j
  | _ => []

/-- What nng delivers on a context is an answer for it. -/
def Shared.answered (s : Shared) (rep : Between) : Label → Bool
  | .recvDone j (.ok (_, body)) _ =>
      match (s.jobs j).aio.op with
      | some (.recv (some c)) => (c, body) ∈ rep.replied
      | _ => false
  | _ => true

/-- When the server exits, so does the proxy, and the other way round. -/
def System.exec (w : System) (move : Move) : Option System :=
  if w.proxy.exited ∨ w.server.exited then none
  else match move with
    | .proxy l =>
        if w.proxy.shared.answered w.server.shared l then
          (Rest.exec w.proxy l).map fun p =>
            ⟨p, { w.server with shared := w.server.shared.ask (w.proxy.shared.sends l) }⟩
        else none
    | .server ans => (w.server.run () ans).map fun r => { w with server := r }
    | .again =>
        match w.server.code () with
        | some (.pure ()) =>
            some { w with server := w.server.spawn () inprocRound w.server.shared }
        | _ => none

def System.Step (w : System) (l : Move) (w' : System) : Prop := w.exec l = some w'

def System.init (data : Req → List UInt8) : System where
  proxy := .init data
  server := ⟨.init, fun _ => some inprocServer, false⟩

/-! ### The server -/

/-- An answer is what the loop makes of a message that nng has taken from the same
context. -/
def Rotated (s : Between) : Prop :=
  ∀ c body, (c, body) ∈ s.replied → ∃ body', (c, body') ∈ s.asked ∧ body = rotBody body'

/-- The message that the server works on. -/
abbrev Working := Option (Context × List UInt8)

def serverLogic : Logic Unit Between Working where
  Inv := Rotated
  Sees _ s v := ∀ c body, v = some (c, body) → s.current = some c ∧ (c, body) ∈ s.asked

section Server

variable {v : Working}

/-- There is one thread. -/
theorem serverFrames (s s' : Between) : serverLogic.Frames () s s' := by
  intro u hu
  exact absurd rfl hu

theorem ok_serverCall {source : String} {Q : Unit → Working → Prop} (hQ : Q () v) :
    serverLogic.Ok () (Nngpp.checked serverCall source) Q (fun _ _ => True) v := by
  apply Nngpp.ok_checked
  intro s ans r s' hs hsees hf
  obtain ⟨rfl, rfl⟩ := Prod.mk.inj (Option.some.inj hf)
  refine ⟨hs, serverFrames _ _, v, hsees, ?_⟩
  show if ans.code = .success then Q () v else True
  split
  · exact hQ
  · trivial

/-- The server receives a message, and works on it. -/
theorem spec_repRecv {P : Answer (List UInt8) → Working → Prop}
    (hok : ∀ c body, P (.ok body) (some (c, body))) (herror : ∀ e, P (.error e) v) :
    serverLogic.Spec () repRecv v P := by
  intro s ans r s' hs hsees hf
  cases ans with
  | error e =>
      obtain ⟨rfl, rfl⟩ := Prod.mk.inj (Option.some.inj hf)
      exact ⟨hs, serverFrames _ _, v, hsees, herror e⟩
  | ok p =>
      obtain ⟨c, body⟩ := p
      obtain ⟨s₁, hs₁, heq⟩ := Option.map_eq_some_iff.mp hf
      obtain ⟨rfl, rfl⟩ := Prod.mk.inj heq
      obtain ⟨hasked, rfl⟩ := Rep.deliver_eq_some.mp hs₁
      refine ⟨hs, serverFrames _ _, some (c, body), fun c' body' h => ?_, hok c body⟩
      obtain ⟨rfl, rfl⟩ := Prod.mk.inj (Option.some.inj h)
      exact ⟨rfl, hasked⟩

/-- The server answers the message with what the loop has made of it. -/
theorem spec_repSend {c : Context} {body : List UInt8} {P : Error → Working → Prop}
    (hP : ∀ e, P e none) :
    serverLogic.Spec () (repSend (rotBody body)) (some (c, body)) P := by
  intro s ans r s' hs hsees hf
  obtain ⟨hcurrent, hasked⟩ := hsees c body rfl
  cases ans with
  | error e =>
      obtain ⟨rfl, rfl⟩ := Prod.mk.inj (Option.some.inj hf)
      exact ⟨hs, serverFrames _ _, none, nofun, hP _⟩
  | ok p =>
      simp only [repSend, Rep.reply_of_current hcurrent] at hf
      obtain ⟨rfl, rfl⟩ := Prod.mk.inj (Option.some.inj hf)
      refine ⟨fun c' body' h => ?_, serverFrames _ _, none, nofun, hP _⟩
      obtain h | h := List.mem_append.mp h
      · exact hs c' body' h
      · obtain ⟨rfl, rfl⟩ := Prod.mk.inj (List.mem_singleton.mp h)
        exact ⟨body, hasked, rfl⟩

theorem safe_inprocServer (v : Working) :
    serverLogic.Safe () inprocServer (fun _ _ => True) v := by
  apply Logic.Ok.orExit
  apply Logic.Ok.bind
  apply ok_serverCall
  exact ok_serverCall trivial

theorem safe_inprocRound (v : Working) :
    serverLogic.Safe () inprocRound (fun _ _ => True) v := by
  apply Logic.Ok.orExit
  apply Logic.Ok.bind
  apply Nngpp.ok_made
  apply spec_repRecv
  · intro c body
    apply Nngpp.ok_checked
    apply spec_repSend
    intro e
    split <;> trivial
  · exact fun _ => trivial

end Server

/-- The server cannot put anything in front of itself. -/
def KeepsAsked {α : Type} (f : ServerAction α) : Prop :=
  ∀ t i s b s', f t i s = some (b, s') → s'.asked = s.asked

theorem keepsAsked_serverCall : KeepsAsked serverCall := by
  intro t ans s r s' h
  obtain ⟨-, rfl⟩ := Prod.mk.inj (Option.some.inj h)
  rfl

theorem keepsAsked_repRecv : KeepsAsked repRecv := by
  intro t ans s r s' h
  cases ans with
  | error e =>
      obtain ⟨-, rfl⟩ := Prod.mk.inj (Option.some.inj h)
      rfl
  | ok p =>
      obtain ⟨s₁, hs₁, heq⟩ := Option.map_eq_some_iff.mp h
      obtain ⟨-, rfl⟩ := Prod.mk.inj heq
      obtain ⟨-, rfl⟩ := Rep.deliver_eq_some.mp hs₁
      rfl

theorem keepsAsked_repSend (body : List UInt8) : KeepsAsked (repSend body) := by
  intro t ans s r s' h
  cases ans with
  | error e =>
      obtain ⟨-, rfl⟩ := Prod.mk.inj (Option.some.inj h)
      rfl
  | ok p =>
      obtain rfl : (s.reply body).2 = s' := congrArg Prod.snd (Option.some.inj h)
      exact Rep.asked_reply

theorem all_inprocServer : inprocServer.All KeepsAsked := by
  apply Prog.All.orExit
  apply Prog.All.bind_code (Nngpp.all_checked keepsAsked_serverCall)
  exact fun _ => Nngpp.all_checked keepsAsked_serverCall

theorem all_inprocRound : inprocRound.All KeepsAsked := by
  apply Prog.All.orExit
  apply Prog.All.bind_code (Nngpp.all_made keepsAsked_repRecv)
  exact fun body => Nngpp.all_checked (keepsAsked_repSend (rotBody body))

/-! ### Runs -/

structure SoundServer (r : Pool Unit Delivery Between) : Prop where
  sound : Pool.Sound serverLogic (fun _ => True) r
  keeps : r.All KeepsAsked

theorem soundServer_init (data : Req → List UInt8) : SoundServer (System.init data).server := by
  constructor
  · constructor
    · intro c body h
      cases h
    · intro t p h
      obtain rfl : inprocServer = p := Option.some.inj h
      refine ⟨none, ?_, safe_inprocServer none⟩
      intro c body hv
      cases hv
    · intro t h
      cases h
  · intro t p h
    obtain rfl : inprocServer = p := Option.some.inj h
    exact all_inprocServer

/-- nng takes more messages for the server. -/
theorem SoundServer.asked {r : Pool Unit Delivery Between} (hr : SoundServer r)
    (more : List (Context × List UInt8)) :
    SoundServer { r with shared := r.shared.ask more } := by
  constructor
  · apply Pool.Sound.outside hr.sound
    · intro c body h
      obtain ⟨body', hmem, hbody⟩ := hr.sound.inv c body h
      exact ⟨body', List.mem_append_left _ hmem, hbody⟩
    · intro t v hsees c body hv
      obtain ⟨hcurrent, hmem⟩ := hsees c body hv
      exact ⟨hcurrent, List.mem_append_left _ hmem⟩
  · exact hr.keeps

/-- The loop goes round. -/
theorem SoundServer.again {r : Pool Unit Delivery Between} (hr : SoundServer r) :
    SoundServer (r.spawn () inprocRound r.shared) := by
  constructor
  · apply Pool.Sound.spawn hr.sound hr.sound.inv (serverFrames _ _) (v := none)
    · intro c body hv
      cases hv
    · exact safe_inprocRound none
  · exact hr.keeps.spawn all_inprocRound r.shared

theorem SoundServer.run {r r' : Pool Unit Delivery Between} (hr : SoundServer r) {ans : Delivery}
    (hrun : r.run () ans = some r') : SoundServer r' ∧ r'.shared.asked = r.shared.asked := by
  have hasked := hr.keeps.respects (R := fun s s' => s'.asked = s.asked) (fun _ => rfl)
    (fun hf => hf) hrun
  exact ⟨⟨hr.sound.run hrun, hr.keeps.run hrun⟩, hasked⟩

/-- Every message that nng has taken for the server is one of which the proxy was
told that it is sent. -/
def Taken (asked : List (Context × List UInt8)) (tr : List (Transition World Label)) : Prop :=
  ∀ c body, (c, body) ∈ asked → ∃ e ∈ tr, ∃ j t m, e.label = .sendDone j .success t ∧
    (e.pre.shared.jobs j).aio.op = some (.send (some c)) ∧
    (e.pre.shared.jobs j).aio.slot = some m ∧ body = m.body

section Together

variable {data : Req → List UInt8} {asked : List (Context × List UInt8)}
  {tr : List (Transition World Label)} {p p' : World} {rep : Between} {l : Label}

theorem Taken.mono {tr' : List (Transition World Label)} (h : Taken asked tr) (htr : tr ⊆ tr') :
    Taken asked tr' := by
  intro c body hmem
  obtain ⟨e, he, rest⟩ := h c body hmem
  exact ⟨e, htr he, rest⟩

/-- What nng takes in a step is what was being sent. -/
theorem Taken.ask (h : Taken rep.asked tr) :
    Taken (rep.ask (p.shared.sends l)).asked (tr ++ [⟨p, l, p'⟩]) := by
  intro c body hmem
  obtain hmem | hmem := List.mem_append.mp hmem
  · exact h.mono (List.subset_append_left _ _) c body hmem
  · unfold Shared.sends at hmem
    split at hmem
    · rename_i j t hask
      refine ⟨⟨p, .sendDone j .success t, p'⟩, by simp, j, t, ?_⟩
      -- only a send with a context and a message puts something in front of the server
      unfold Shared.asking at hmem
      split at hmem
      · rename_i c' m hop hslot
        obtain ⟨rfl, rfl⟩ := Prod.mk.inj (List.mem_singleton.mp hmem)
        exact ⟨m, rfl, hop, hslot, rfl⟩
      · simp at hmem
    · simp at hmem

/-- What nng delivers in a step is the server's answer to a message that was sent on
the same context. -/
theorem Serves.snoc (h : Serves rotBody tr) (hrep : Rotated rep) (htaken : Taken rep.asked tr)
    (hanswers : p.shared.answered rep l = true) : Serves rotBody (tr ++ [⟨p, l, p'⟩]) := by
  intro e he j m body t c hlabel hop
  obtain he | he := List.mem_append.mp he
  · obtain ⟨e', he', rest⟩ := h e he j m body t c hlabel hop
    exact ⟨e', List.mem_append_left _ he', rest⟩
  · obtain rfl := List.mem_singleton.mp he
    have hlabel : l = .recvDone j (.ok (m, body)) t := hlabel
    have hop : (p.shared.jobs j).aio.op = some (.recv c) := hop
    subst hlabel
    simp only [Shared.answered] at hanswers
    rw [hop] at hanswers
    cases c with
    | none => cases hanswers
    | some c =>
        have hreplied : (c, body) ∈ rep.replied := of_decide_eq_true hanswers
        obtain ⟨body', hasked, rfl⟩ := hrep c body hreplied
        obtain ⟨e', he', j', t', m', hlabel', hop', hslot', rfl⟩ := htaken c body' hasked
        exact ⟨e', List.mem_append_left _ he', j', t', m', hlabel', hop', hslot', rfl⟩

end Together

/-- Together with the server, the proxy runs as it does alone, and its environment is
one that serves `rotBody`. -/
theorem proxy_run {data : Req → List UInt8} {tr : List (Transition System Move)} {w : System}
    (run : Run System.Step (.init data) tr w) :
    ∃ tr', Run Step (.init data) tr' w.proxy ∧ Serves rotBody tr' ∧
      SoundServer w.server ∧ Taken w.server.shared.asked tr' := by
  induction run with
  | nil =>
      refine ⟨[], .nil, ?_, soundServer_init data, ?_⟩
      · intro e he
        cases he
      · intro c body h
        cases h
  | @snoc tr w w' move run hstep ih =>
      obtain ⟨tr', hrun, hserves, hserver, htaken⟩ := ih
      unfold System.Step System.exec at hstep
      split at hstep
      · cases hstep
      cases move with
      | proxy l =>
          obtain ⟨hanswers, hstep⟩ := Option.ite_none_right_eq_some.mp hstep
          obtain ⟨p, hp, rfl⟩ := Option.map_eq_some_iff.mp hstep
          -- what nng delivers to the proxy is an answer of the server to what it was asked
          have hrep : Rotated w.server.shared := hserver.sound.inv
          exact ⟨_, hrun.snoc hp, hserves.snoc hrep htaken hanswers, hserver.asked _, htaken.ask⟩
      | server ans =>
          obtain ⟨r, hr, rfl⟩ := Option.map_eq_some_iff.mp hstep
          obtain ⟨hsound, hasked⟩ := hserver.run hr
          refine ⟨tr', hrun, hserves, hsound, ?_⟩
          show Taken r.shared.asked tr'
          rw [hasked]
          exact htaken
      | again =>
          simp only at hstep
          split at hstep
          · obtain rfl := Option.some.inj hstep
            exact ⟨tr', hrun, hserves, hserver.again, htaken⟩
          · cases hstep

/-- Whatever the order in which the requests, the statements of the handler, the
callback and the server, and the deliveries come, and whatever fails: a request is
answered at most once, and an answer that is not a failure has the data of its own
request, with each letter moved by 13 places. -/
theorem answers_rotated {data : Req → List UInt8} {tr : List (Transition System Move)}
    {w : System} (run : Run System.Step (.init data) tr w) :
    (∀ r, (answers w.proxy.shared r).length ≤ 1) ∧
    ∀ a ∈ w.proxy.shared.log, ∀ p, a.output = some p → p.status = 200 →
      p.data = rotBody (data a.req) ∧
        ((data a.req).length < 2 ^ 31 → p.data = (data a.req).map rot13) := by
  obtain ⟨tr', hrun, hserves, -, -⟩ := proxy_run run
  refine ⟨(sound_run hrun).inv.orderly.once, ?_⟩
  intro a ha p hp hstatus
  have hdata := hserves.answers hrun a ha p hp hstatus
  exact ⟨hdata, fun hlt => hdata.trans (rotBody_of_lt hlt)⟩

/-- A call of the server ends well. -/
def succeeds : Move := .server (.ok (⟨0, none⟩, []))

/-- The request of `exchanged`, with a server that answers it: "Hi!" becomes "Uv!". -/
def rotated : List Move :=
  [succeeds, succeeds, .again] ++ handled.map .proxy ++
    [.proxy (.sendDone 5 .success 1),
      .server (.ok (⟨7, some 0⟩, [72, 105, 33])), succeeds] ++
    (statements 1 5).map .proxy ++
    [.proxy (.recvDone 5 (.ok (11, [85, 118, 33])) 2)] ++ (statements 2 17).map .proxy

theorem answers_rotated_letters :
    ∃ w, Run.follow System.exec (.init fun _ => [72, 105, 33]) rotated = some w ∧
      w.proxy.shared.log = [⟨0, .success, some ⟨200, none, [85, 118, 33], some 0⟩⟩] ∧
      [85, 118, 33] = [72, 105, 33].map rot13 := by
  obtain ⟨w, hw, hlog⟩ : ∃ w,
      Run.follow System.exec (.init fun _ => [72, 105, 33]) rotated = some w ∧
        w.proxy.shared.log = [⟨0, .success, some ⟨200, none, [85, 118, 33], some 0⟩⟩] :=
    ⟨_, rfl, rfl⟩
  obtain ⟨tr, run⟩ := Run.of_follow hw
  obtain ⟨-, hanswers⟩ := answers_rotated run
  obtain ⟨-, hdata⟩ := hanswers _ (hlog ▸ List.mem_singleton_self _) _ rfl rfl
  exact ⟨w, hw, hlog, hdata (by decide)⟩

end Nngpp.Rest
