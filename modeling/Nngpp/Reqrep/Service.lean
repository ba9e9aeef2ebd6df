import Nngpp.Reqrep.Model

/-!
What the date service is for, and what each statement does for it.

`Phase.next` is the service as its requests see it: the server reads the clock for a
well-formed request and for nothing else, and it does so and replies before it takes
another request. `Inv` ties what is in the net to the log: every reply and every
date that is printed has its whole story in the log, in order.
-/

namespace Nngpp.Reqrep

open Function Lib

/-! ### The log -/

/-- What has happened, in order. -/
def Net.events (s : Net) : List Event := s.log.map Entry.event

/-- These events have happened, one after the other. -/
abbrev Happened (s : Net) (es : List Event) : Prop := es.Sublist s.events

def Event.isPrint (i : ℕ) : Event → Bool
  | .printed j _ => i == j
  | _ => false

/-- The events of a message on its way. -/
def Event.isPassing : Event → Bool
  | .asked .. | .received .. | .replied .. => true
  | _ => false

/-- How many dates a client has printed. -/
def Net.printings (s : Net) (i : ℕ) : ℕ := s.events.countP (Event.isPrint i)

/-- The server waits for a request, has a well-formed one, or knows the date for it. -/
inductive Phase
  | idle
  | taken (c : Peer)
  | dated (c : Peer) (now : Time)

/-- The date service. -/
def Phase.next : Phase → Event → Option Phase
  | .idle, .received c body => some (if body = request then .taken c else .idle)
  | .taken c, .dated now => some (.dated c now)
  | .dated c now, .replied c' body => if c' = c ∧ body = put64 now then some .idle else none
  | p, .asked _ _ => some p
  | p, .printed _ _ => some p
  | p, .wrongSize _ => some p
  | _, _ => none

/-- Where the service stands. -/
def Net.served (s : Net) : Option Phase := s.events.foldlM Phase.next .idle

section Log

variable {s : Net} {e : Event} {t : Party} {x : Process} {i : ℕ} {es : List Event}

@[simp] theorem events_note : (s.note e).events = s.events ++ [e] := by simp [Net.events, Net.note]

@[simp] theorem served_note : (s.note e).served = s.served.bind fun p => p.next e := by
  simp only [Net.served, events_note, List.foldlM_append, List.foldlM_cons, List.foldlM_nil]
  show (s.served.bind fun p => (p.next e).bind some) = _
  simp only [Option.bind_fun_some]
  rfl

@[simp] theorem printings_note :
    (s.note e).printings i = s.printings i + if e.isPrint i then 1 else 0 := by
  simp [Net.printings, List.countP_cons]

@[simp] theorem events_set : (s.set t x).events = s.events := rfl

@[simp] theorem served_set : (s.set t x).served = s.served := rfl

@[simp] theorem printings_set : (s.set t x).printings i = s.printings i := rfl

theorem Happened.note (h : Happened s es) : Happened (s.note e) es := by
  rw [Happened, events_note]
  exact h.trans (List.sublist_append_left _ _)

/-- What happens now happens after all that has happened. -/
theorem Happened.snoc (h : Happened s es) : Happened (s.note e) (es ++ [e]) := by
  rw [Happened, events_note]
  exact h.append (List.Sublist.refl _)

end Log

/-- A request of a peer has been answered with a date. -/
def Answered (s : Net) (c : Peer) (now : Time) : Prop :=
  Happened s [.asked c request, .received c request, .dated now, .replied c (put64 now)]

/-- The log is in order of time. -/
structure Timely (s : Net) : Prop where
  sorted : s.log.Pairwise fun x y => x.time.toInt ≤ y.time.toInt
  past : ∀ x ∈ s.log, x.time.toInt ≤ s.clock.toInt

structure Inv (s : Net) : Prop where
  sound : s.fault = false
  asked : ∀ c body, (c, body) ∈ s.rep.asked → .asked c body ∈ s.events
  own : ∀ i body, (.client i, body) ∈ s.rep.asked → body = request
  replied : ∀ c body, (c, body) ∈ s.rep.replied → ∃ now, body = put64 now ∧ Answered s c now
  printed : ∀ i now, .printed i now ∈ s.events →
    Happened s [.asked (.client i) request, .received (.client i) request, .dated now,
      .replied (.client i) (put64 now), .printed i now]
  once : ∀ i, s.printings i ≤ 1
  sized : ∀ i, .wrongSize i ∉ s.events
  dated : ∀ x ∈ s.log, ∀ now, x.event = .dated now → now = x.time
  timely : s.back = false → Timely s

/-- What has happened first has an earlier time. -/
theorem Timely.before {s : Net} {e e' : Event} (h : Timely s) (hee' : Happened s [e, e']) :
    ∃ x ∈ s.log, ∃ y ∈ s.log, x.event = e ∧ y.event = e' ∧ x.time.toInt ≤ y.time.toInt := by
  obtain ⟨l, hl, hevents⟩ := List.sublist_map_iff.mp hee'
  obtain ⟨x, l, rfl, hx, hevents⟩ := List.map_eq_cons_iff.mp hevents.symm
  obtain ⟨y, l, rfl, hy, -⟩ := List.map_eq_cons_iff.mp hevents
  have hle := List.rel_of_pairwise_cons (h.sorted.sublist hl) (List.mem_cons_self ..)
  exact ⟨x, hl.subset (by simp), y, hl.subset (by simp), hx, hy, hle⟩

/-- What happens now is the last. -/
theorem Timely.note {s : Net} {e : Event} (h : Timely s) : Timely (s.note e) where
  sorted := by
    refine List.pairwise_append.mpr ⟨h.sorted, List.pairwise_singleton _ _, ?_⟩
    intro x hx y hy
    rw [List.mem_singleton.mp hy]
    exact h.past x hx
  past x hx := by
    obtain hx | hx := List.mem_append.mp hx
    · exact h.past x hx
    · rw [List.mem_singleton.mp hx]
      exact Int.le_refl _

namespace Inv

variable {s s' : Net} {e : Event}

/-- The invariant is about the messages, the log and the clock. -/
theorem same (h : Inv s) (hasked : s'.rep.asked = s.rep.asked)
    (hreplied : s'.rep.replied = s.rep.replied) (hlog : s'.log = s.log)
    (hfault : s'.fault = s.fault) (htimely : s'.back = false → Timely s') : Inv s' := by
  have hevents : s'.events = s.events := congrArg (List.map Entry.event) hlog
  constructor
  · rw [hfault]
    exact h.sound
  · rw [hasked, hevents]
    exact h.asked
  · rw [hasked]
    exact h.own
  · rw [hreplied]
    unfold Answered Happened
    rw [hevents]
    exact h.replied
  · unfold Happened
    rw [hevents]
    exact h.printed
  · unfold Net.printings
    rw [hevents]
    exact h.once
  · rw [hevents]
    exact h.sized
  · rw [hlog]
    exact h.dated
  · exact htimely

/-- Something happens, which is no failure of the service. -/
theorem note (h : Inv s)
    (hprint : ∀ i now, e = .printed i now → s.printings i = 0 ∧ Answered s (.client i) now)
    (hsized : ∀ i, e ≠ .wrongSize i) (hdated : ∀ now, e = .dated now → now = s.clock) :
    Inv (s.note e) where
  sound := h.sound
  asked c body hmem := by
    rw [events_note]
    exact List.mem_append_left _ (h.asked c body hmem)
  own := h.own
  replied c body hmem := by
    obtain ⟨now, hbody, hanswered⟩ := h.replied c body hmem
    exact ⟨now, hbody, hanswered.note⟩
  printed i now hmem := by
    rw [events_note, List.mem_append, List.mem_singleton] at hmem
    obtain hmem | hnew := hmem
    · exact (h.printed i now hmem).note
    · obtain ⟨-, hanswered⟩ := hprint i now hnew.symm
      rw [← hnew]
      exact hanswered.snoc
  once i := by
    rw [printings_note]
    have hle := h.once i
    split
    · rename_i hi
      cases e with
      | printed j now =>
          obtain rfl : i = j := eq_of_beq hi
          have hzero := (hprint i now rfl).1
          omega
      | _ => cases hi
    · omega
  sized i hmem := by
    rw [events_note, List.mem_append, List.mem_singleton] at hmem
    obtain hmem | hnew := hmem
    · exact h.sized i hmem
    · exact hsized i hnew.symm
  dated x hx now hnow := by
    obtain hx | hx := List.mem_append.mp hx
    · exact h.dated x hx now hnow
    · rw [List.mem_singleton] at hx
      subst hx
      exact hdated now hnow
  timely hback := (h.timely hback).note

/-- A message goes on. -/
theorem note_passing (h : Inv s) (he : e.isPassing = true) : Inv (s.note e) := by
  apply h.note
  · rintro i now rfl
    cases he
  · rintro i rfl
    cases he
  · rintro now rfl
    cases he

/-- A process changes what it has. -/
theorem set {t : Party} {x : Process} (h : Inv s) : Inv (s.set t x) :=
  h.same rfl rfl rfl rfl fun hback => ⟨(h.timely hback).sorted, (h.timely hback).past⟩

/-- The server has received a message. -/
theorem current {c : Option Peer} (h : Inv s) : Inv (s.setRep { s.rep with current := c }) :=
  h.same rfl rfl rfl rfl fun hback => ⟨(h.timely hback).sorted, (h.timely hback).past⟩

/-- The log stays in order unless the clock is set back. -/
theorem tick (h : Inv s) (now : Time) : Inv (s.tick now) := by
  refine h.same rfl rfl rfl rfl fun hback => ?_
  obtain ⟨hback, hnow⟩ := Bool.or_eq_false_iff.mp hback
  have hle : s.clock.toInt ≤ now.toInt := Int.not_lt.mp (of_decide_eq_false hnow)
  refine ⟨(h.timely hback).sorted, fun x hx => ?_⟩
  exact Int.le_trans ((h.timely hback).past x hx) hle

/-- nng takes a request. -/
theorem ask {c : Peer} {body : List UInt8} (h : Inv s) (hown : ∀ i, c = .client i → body = request) :
    Inv ((s.setRep (s.rep.ask [(c, body)])).note (.asked c body)) := by
  have hnote : Inv (s.note (.asked c body)) := h.note_passing rfl
  refine ⟨hnote.sound, fun c' body' hmem => ?_, fun i body' hmem => ?_, hnote.replied, hnote.printed,
    hnote.once, hnote.sized, hnote.dated, fun hback => ?_⟩
  · obtain hmem | hmem := List.mem_append.mp hmem
    · exact hnote.asked c' body' hmem
    · obtain ⟨rfl, rfl⟩ := Prod.mk.inj (List.mem_singleton.mp hmem)
      rw [events_note]
      exact List.mem_append_right _ (List.mem_singleton_self _)
  · obtain hmem | hmem := List.mem_append.mp hmem
    · exact h.own i body' hmem
    · obtain ⟨hc, rfl⟩ := Prod.mk.inj (List.mem_singleton.mp hmem)
      exact hown i hc.symm
  · exact ⟨(hnote.timely hback).sorted, (hnote.timely hback).past⟩

/-- nng takes a reply. -/
theorem reply {c : Peer} {now : Time} (h : Inv s) (hcurrent : s.rep.current = some c)
    (hdated : Happened s [.asked c request, .received c request, .dated now]) :
    Inv ((s.setRep (s.rep.reply (put64 now)).2).note (.replied c (put64 now))) := by
  have hnote : Inv (s.note (.replied c (put64 now))) := h.note_passing rfl
  rw [Rep.reply_of_current hcurrent]
  refine ⟨hnote.sound, hnote.asked, hnote.own, fun c' body hmem => ?_, hnote.printed, hnote.once,
    hnote.sized, hnote.dated, fun hback => ?_⟩
  · obtain hmem | hmem := List.mem_append.mp hmem
    · exact hnote.replied c' body hmem
    · obtain ⟨rfl, rfl⟩ := Prod.mk.inj (List.mem_singleton.mp hmem)
      exact ⟨now, rfl, hdated.snoc⟩
  · exact ⟨(hnote.timely hback).sorted, (hnote.timely hback).past⟩

end Inv

/-! ### What a process knows -/

/-- A process, what it has, the phase of the service, how many dates it has printed,
and the date of a reply that it has received. -/
structure View where
  party : Party
  proc : Process
  phase : Phase
  printed : ℕ
  date : Option Time

/-- What the phase says of the net. -/
def Phase.Holds (s : Net) : Phase → Prop
  | .idle => True
  | .taken c => s.rep.current = some c ∧ Happened s [.asked c request, .received c request]
  | .dated c now =>
      s.rep.current = some c ∧ Happened s [.asked c request, .received c request, .dated now]

structure Sees (t : Party) (s : Net) (v : View) : Prop where
  party : v.party = t
  proc : s.procs t = v.proc
  phase : t = .server → s.served = some v.phase ∧ v.phase.Holds s
  printed : ∀ i, t = .client i → s.printings i = v.printed
  date : ∀ i now, t = .client i → v.date = some now → Answered s (.client i) now

def logic : Logic Party Net View where
  Inv := Inv
  Sees := Sees

/-- What other processes do not notice. -/
structure Frame (t : Party) (s s' : Net) : Prop where
  procs : ∀ u, u ≠ t → s'.procs u = s.procs u
  happened : ∀ es, Happened s es → Happened s' es
  served : t ≠ .server → s'.served = s.served ∧ s'.rep.current = s.rep.current
  printings : ∀ i, t ≠ .client i → s'.printings i = s.printings i

theorem Phase.Holds.mono {s s' : Net} {p : Phase} (h : p.Holds s)
    (hcurrent : s'.rep.current = s.rep.current) (hhappened : ∀ es, Happened s es → Happened s' es) :
    p.Holds s' := by
  cases p with
  | idle => trivial
  | taken c => exact ⟨hcurrent.trans h.1, hhappened _ h.2⟩
  | dated c now => exact ⟨hcurrent.trans h.1, hhappened _ h.2⟩

theorem Frame.frames {t : Party} {s s' : Net} (h : Frame t s s') : logic.Frames t s s' := by
  intro u hu v hv
  refine ⟨hv.party, (h.procs u hu).trans hv.proc, fun hserver => ?_, fun i hi => ?_,
    fun i now hi hdate => h.happened _ (hv.date i now hi hdate)⟩
  · have ht : t ≠ .server := fun heq => hu (hserver.trans heq.symm)
    obtain ⟨hserved, hcurrent⟩ := h.served ht
    obtain ⟨hphase, hholds⟩ := hv.phase hserver
    exact ⟨hserved.trans hphase, hholds.mono hcurrent h.happened⟩
  · have ht : t ≠ .client i := fun heq => hu (hi.trans heq.symm)
    exact (h.printings i ht).trans (hv.printed i hi)

/-! ### Frames -/

theorem Frame.trans {t : Party} {s s' s'' : Net} (h : Frame t s s') (h' : Frame t s' s'') :
    Frame t s s'' where
  procs u hu := (h'.procs u hu).trans (h.procs u hu)
  happened es hes := h'.happened es (h.happened es hes)
  served ht :=
    ⟨(h'.served ht).1.trans (h.served ht).1, (h'.served ht).2.trans (h.served ht).2⟩
  printings i ht := (h'.printings i ht).trans (h.printings i ht)

theorem frame_set {s : Net} {t : Party} {x : Process} : Frame t s (s.set t x) where
  procs _ hu := update_of_ne hu _ _
  happened _ h := h
  served _ := ⟨rfl, rfl⟩
  printings _ _ := rfl

theorem frame_setRep {s : Net} {t : Party} (rep : Rep Peer)
    (hcurrent : t ≠ .server → rep.current = s.rep.current) : Frame t s (s.setRep rep) where
  procs _ _ := rfl
  happened _ h := h
  served ht := ⟨rfl, hcurrent ht⟩
  printings _ _ := rfl

/-- Other processes do not notice what a process does by itself. -/
theorem frame_note {s : Net} {t : Party} {e : Event}
    (hphase : t ≠ .server → ∀ p : Phase, p.next e = some p)
    (hprint : ∀ i, t ≠ .client i → e.isPrint i = false) : Frame t s (s.note e) where
  procs _ _ := rfl
  happened _ h := h.note
  served ht := by
    refine ⟨?_, rfl⟩
    simp only [served_note, hphase ht]
    exact Option.bind_fun_some _
  printings i ht := by simp [hprint i ht]

section Phases

variable {p : Phase} {c : Peer} {body : List UInt8} {i : ℕ} {now : Time}

@[simp] theorem next_asked : p.next (.asked c body) = some p := by cases p <;> rfl

@[simp] theorem next_printed : p.next (.printed i now) = some p := by cases p <;> rfl

end Phases

/-! ### Contracts -/

section Contracts

variable {t : Party} {v : View}

/-- What a process does itself, it knows. -/
theorem Sees.note {s : Net} {e : Event} {p : Phase} {n : ℕ} (h : Sees t s v)
    (hphase : t = .server → v.phase.next e = some p ∧ p.Holds (s.note e))
    (hprint : ∀ i, t = .client i → n = v.printed + if e.isPrint i then 1 else 0) :
    Sees t (s.note e) { v with phase := p, printed := n } where
  party := h.party
  proc := h.proc
  phase ht := by
    obtain ⟨hnext, hholds⟩ := hphase ht
    refine ⟨?_, hholds⟩
    rw [served_note, (h.phase ht).1]
    exact hnext
  printed i ht := by
    rw [printings_note, h.printed i ht]
    exact (hprint i ht).symm
  date i now ht hdate := (h.date i now ht hdate).note

theorem Sees.setRep {s : Net} {rep : Rep Peer} (h : Sees t s v)
    (hholds : t = .server → v.phase.Holds (s.setRep rep)) : Sees t (s.setRep rep) v :=
  ⟨h.party, h.proc, fun ht => ⟨(h.phase ht).1, hholds ht⟩, h.printed, h.date⟩

/-- A process changes what it has. -/
theorem Sees.set {s : Net} {x : Process} (h : Sees t s v) :
    Sees t (s.set t x) { v with proc := x } :=
  ⟨h.party, update_self .., h.phase, h.printed, h.date⟩

theorem spec_call {P : Error → View → Prop} (hP : ∀ e, P e v) : logic.Spec t call v P := by
  intro s ans r s' hs hsees hf
  obtain ⟨rfl, rfl⟩ := Prod.mk.inj (Option.some.inj hf)
  exact ⟨hs, fun _ _ _ hu => hu, v, hsees, hP _⟩

theorem spec_openSocket {P : Error → View → Prop} (herror : ∀ e : Failure, P e.val v)
    (hok : P .success { v with proc := { v.proc with sock := true } }) :
    logic.Spec t openSocket v P := by
  intro s ans r s' hs hsees hf
  cases ans with
  | error e =>
      obtain ⟨rfl, rfl⟩ := Prod.mk.inj (Option.some.inj hf)
      exact ⟨hs, fun _ _ _ hu => hu, v, hsees, herror e⟩
  | ok q =>
      obtain ⟨rfl, rfl⟩ := Prod.mk.inj (Option.some.inj hf)
      refine ⟨hs.set, frame_set.frames, _, hsees.set, ?_⟩
      rw [hsees.proc]
      exact hok

/-- Only an open socket may be closed. -/
theorem spec_closeSocket {P : Unit → View → Prop} (hsock : v.proc.sock = true)
    (hP : P () { v with proc := { v.proc with sock := false } }) :
    logic.Spec t closeSocket v P := by
  intro s ans r s' hs hsees hf
  have hopen : (s.procs t).sock = true := by rw [hsees.proc, hsock]
  simp only [closeSocket, hopen, if_true] at hf
  obtain ⟨rfl, rfl⟩ := Prod.mk.inj (Option.some.inj hf)
  refine ⟨hs.set, frame_set.frames, _, hsees.set, ?_⟩
  rw [hsees.proc]
  exact hP

theorem spec_exitWith {code : ℕ} {P : View → Prop}
    (hP : P { v with proc := { v.proc with returned := some code } }) :
    logic.Safe t (exitWith code) (fun _ => P) v := by
  intro s ans r s' hs hsees hf
  obtain ⟨-, rfl⟩ := Prod.mk.inj (Option.some.inj hf)
  refine ⟨hs.set, frame_set.frames, _, hsees.set, ?_⟩
  rw [hsees.proc]
  exact hP

/-- The object owns the only block, or there is none. -/
def Process.Owns (x : Process) : Prop := x.allocated = if x.buf.isSome then 1 else 0

/-- The destructor frees the block that the object owns. -/
theorem spec_freeBuf {P : Unit → View → Prop} (howns : v.proc.Owns)
    (hP : P () { v with proc := { v.proc with buf := none, allocated := 0 } }) :
    logic.Spec t freeBuf v P := by
  intro s ans r s' hs hsees hf
  have hproc := hsees.proc
  cases hbuf : v.proc.buf with
  | none =>
      have hzero : v.proc.allocated = 0 := by simpa [Process.Owns, hbuf] using howns
      have hv : { v with proc := { v.proc with buf := none, allocated := 0 } } = v := by
        rw [← hbuf, ← hzero]
      simp only [freeBuf, hproc, hbuf] at hf
      obtain ⟨rfl, rfl⟩ := Prod.mk.inj (Option.some.inj hf)
      rw [hv] at hP
      exact ⟨hs, fun _ _ _ hu => hu, v, hsees, hP⟩
  | some data =>
      have hone : v.proc.allocated = 1 := by simpa [Process.Owns, hbuf] using howns
      have hfree : s.nngFree t = s.set t { v.proc with allocated := 0 } := by
        rw [Net.nngFree, hproc, hone]
      simp only [freeBuf, hproc, hbuf, hfree] at hf
      obtain ⟨rfl, rfl⟩ := Prod.mk.inj (Option.some.inj hf)
      refine ⟨hs.set.set, ?_, _, hsees.set.set, ?_⟩
      · exact (frame_set.trans frame_set).frames
      · simpa [Net.set] using hP

theorem spec_releaseBuf {P : Unit → View → Prop}
    (hP : P () { v with proc := { v.proc with buf := none } }) :
    logic.Spec t releaseBuf v P := by
  intro s ans r s' hs hsees hf
  obtain ⟨rfl, rfl⟩ := Prod.mk.inj (Option.some.inj hf)
  refine ⟨hs.set, frame_set.frames, _, hsees.set, ?_⟩
  rw [hsees.proc]
  exact hP

section Client

variable {i : ℕ}

/-- A client asks for the date. -/
theorem spec_reqSend {P : Error → View → Prop} (herror : ∀ e : Failure, P e.val v)
    (hok : P .success v) : logic.Spec (.client i) (reqSend i request) v P := by
  intro s ans r s' hs hsees hf
  cases ans with
  | error e =>
      obtain ⟨rfl, rfl⟩ := Prod.mk.inj (Option.some.inj hf)
      exact ⟨hs, fun _ _ _ hu => hu, v, hsees, herror e⟩
  | ok q =>
      obtain ⟨rfl, rfl⟩ := Prod.mk.inj (Option.some.inj hf)
      refine ⟨hs.ask fun _ _ => rfl, ?_, v, ?_, hok⟩
      · apply Frame.frames
        apply (frame_setRep (s.rep.ask [(.client i, request)]) fun _ => rfl).trans
        exact frame_note (fun _ _ => next_asked) fun _ _ => rfl
      · apply (hsees.setRep _).note (p := v.phase) (n := v.printed)
        · intro h
          cases h
        · exact fun _ _ => rfl
        · intro h
          cases h

/-- What a client receives is a date. -/
theorem spec_reqRecv {P : Answer (List UInt8) → View → Prop} (herror : ∀ e, P (.error e) v)
    (hok : ∀ now, P (.ok (put64 now)) { v with
      proc := v.proc.hold (put64 now)
      date := some now }) :
    logic.Spec (.client i) (reqRecv i) v P := by
  intro s ans r s' hs hsees hf
  cases ans with
  | error e =>
      obtain ⟨rfl, rfl⟩ := Prod.mk.inj (Option.some.inj hf)
      exact ⟨hs, fun _ _ _ hu => hu, v, hsees, herror e⟩
  | ok q =>
      obtain ⟨hreplied, hf⟩ := Option.ite_none_right_eq_some.mp hf
      obtain ⟨rfl, rfl⟩ := Prod.mk.inj (Option.some.inj hf)
      obtain ⟨now, hbody, hanswered⟩ := hs.replied _ _ hreplied
      rw [hbody]
      refine ⟨hs.set, frame_set.frames, _, ?_, hok now⟩
      constructor
      · exact hsees.party
      · rw [← hsees.proc]
        exact update_self ..
      · intro h
        cases h
      · exact hsees.printed
      · intro j now' hj hnow
        obtain rfl := Option.some.inj hnow
        obtain rfl := Party.client.inj hj
        exact hanswered

/-- A client prints the date that it has received, for the first time. -/
theorem spec_report {now : Time} {P : Unit → View → Prop} (hprinted : v.printed = 0)
    (hdate : v.date = some now) (hP : P () { v with printed := 1 }) :
    logic.Spec (.client i) (report (.printed i now)) v P := by
  intro s ans r s' hs hsees hf
  obtain ⟨rfl, rfl⟩ := Prod.mk.inj (Option.some.inj hf)
  have hprint : ∀ j now', Event.printed i now = .printed j now' →
      s.printings j = 0 ∧ Answered s (.client j) now' := by
    intro j now' heq
    obtain ⟨rfl, rfl⟩ := Event.printed.inj heq
    exact ⟨(hsees.printed i rfl).trans hprinted, hsees.date i now rfl hdate⟩
  refine ⟨hs.note hprint ?_ ?_, ?_, _, ?_, hP⟩
  · intro j heq
    cases heq
  · intro now' heq
    cases heq
  · apply Frame.frames
    apply frame_note (fun _ _ => next_printed)
    intro j hj
    exact beq_eq_false_iff_ne.mpr fun heq => hj (by rw [heq])
  · apply hsees.note (p := v.phase) (n := 1)
    · intro h
      cases h
    · intro j hj
      obtain rfl := Party.client.inj hj
      simp [hprinted, Event.isPrint]

end Client

section Server

/-- The server receives a request, and a well-formed one is to be answered. -/
theorem spec_repRecv {P : Answer (List UInt8) → View → Prop} (hidle : v.phase = .idle)
    (herror : ∀ e, P (.error e) v)
    (hok : ∀ c body, P (.ok body) { v with
      proc := v.proc.hold body
      phase := if body = request then .taken c else .idle }) :
    logic.Spec .server repRecv v P := by
  intro s ans r s' hs hsees hf
  cases ans with
  | error e =>
      obtain ⟨rfl, rfl⟩ := Prod.mk.inj (Option.some.inj hf)
      exact ⟨hs, fun _ _ _ hu => hu, v, hsees, herror e⟩
  | ok q =>
      obtain ⟨c, body⟩ := q
      obtain ⟨rep, hrep, heq⟩ := Option.map_eq_some_iff.mp hf
      obtain ⟨rfl, rfl⟩ := Prod.mk.inj heq
      obtain ⟨hasked, rfl⟩ := Rep.deliver_eq_some.mp hrep
      have hinv : Inv ((s.setRep { s.rep with current := some c }).set .server
          ((s.procs .server).hold body)) := hs.current.set
      have hholds : v.phase.Holds (s.setRep { s.rep with current := some c }) := by
        rw [hidle]
        trivial
      refine ⟨hinv.note_passing rfl, ?_, _, ?_, hok c body⟩
      · apply Frame.frames
        apply (frame_setRep { s.rep with current := some c } fun h => absurd rfl h).trans
        apply frame_set.trans
        exact frame_note (fun h => absurd rfl h) fun _ _ => rfl
      · have hheld := (hsees.setRep fun _ => hholds).set (x := v.proc.hold body)
        rw [← hsees.proc] at hheld ⊢
        apply hheld.note (n := v.printed)
        · intro h
          constructor
          · simp only [hidle, Phase.next]
          · -- only a command is going to be answered
            by_cases hbody : body = request
            · rw [if_pos hbody]
              refine ⟨rfl, ?_⟩
              rw [hbody] at hasked ⊢
              have hbefore : Happened s [.asked c request] :=
                List.singleton_sublist.mpr (hs.asked c request hasked)
              exact hbefore.snoc
            · rw [if_neg hbody]
              trivial
        · intro i h
          cases h

/-- The server reads the clock for a well-formed request. -/
theorem spec_time {c : Peer} {P : Time → View → Prop} (htaken : v.phase = .taken c)
    (hP : ∀ now, P now { v with phase := .dated c now }) : logic.Spec .server time v P := by
  intro s ans r s' hs hsees hf
  obtain ⟨rfl, rfl⟩ := Prod.mk.inj (Option.some.inj hf)
  obtain ⟨-, hholds⟩ := hsees.phase rfl
  rw [htaken] at hholds
  refine ⟨hs.note ?_ ?_ ?_, ?_, _, ?_, hP s.clock⟩
  · intro i now heq
    cases heq
  · intro i heq
    cases heq
  · intro now heq
    exact (Event.dated.inj heq).symm
  · apply Frame.frames
    exact frame_note (fun h => absurd rfl h) fun _ _ => rfl
  · apply hsees.note (n := v.printed)
    · intro h
      rw [htaken]
      exact ⟨rfl, hholds.1, hholds.2.snoc⟩
    · intro i h
      cases h

/-- The server replies with the date. -/
theorem spec_repSend {c : Peer} {now : Time} {P : Error → View → Prop}
    (hdated : v.phase = .dated c now) (howned : v.proc.allocated = 1)
    (herror : ∀ e : Failure, P e.val v)
    (hok : P .success { v with
      proc := { v.proc with allocated := 0 }
      phase := .idle }) :
    logic.Spec .server (repSend (put64 now)) v P := by
  intro s ans r s' hs hsees hf
  obtain ⟨-, hholds⟩ := hsees.phase rfl
  rw [hdated] at hholds
  obtain ⟨hcurrent, hhappened⟩ := hholds
  have hproc := hsees.proc
  cases ans with
  | error e =>
      obtain ⟨rfl, rfl⟩ := Prod.mk.inj (Option.some.inj hf)
      exact ⟨hs, fun _ _ _ hu => hu, v, hsees, herror e⟩
  | ok q =>
      simp only [repSend, hcurrent] at hf
      obtain ⟨rfl, rfl⟩ := Prod.mk.inj (Option.some.inj hf)
      have hfree : (s.setRep (s.rep.reply (put64 now)).2).nngFree .server =
          (s.setRep (s.rep.reply (put64 now)).2).set .server { v.proc with allocated := 0 } := by
        rw [Net.nngFree]
        simp only [Net.setRep, hproc, howned]
      rw [hfree]
      refine ⟨(hs.reply hcurrent hhappened).set, ?_, _, ?_, hok⟩
      · apply Frame.frames
        apply (frame_setRep (s.rep.reply (put64 now)).2 fun h => absurd rfl h).trans
        apply frame_set.trans
        exact frame_note (fun h => absurd rfl h) fun _ _ => rfl
      · refine ⟨hsees.party, ?_, fun _ => ⟨?_, trivial⟩, ?_, ?_⟩
        · exact update_self Party.server { v.proc with allocated := 0 } s.procs
        · rw [served_note, served_set]
          have hserved : (s.setRep (s.rep.reply (put64 now)).2).served = some v.phase :=
            (hsees.phase rfl).1
          rw [hserved, hdated]
          simp [Phase.next]
        · intro i h
          cases h
        · intro i now h
          cases h

end Server

end Contracts

end Nngpp.Reqrep
