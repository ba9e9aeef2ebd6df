import Nngpp.Rest.Answers

/-!
What is left in a job that is on the freelist.

`rest_recycle_job` resets the response, the message and the context, but not the
aio. Its slot is empty after everything but a send that has failed, of which the
message is still there, and is lost when the job is used again. So in a run in
which no send fails, the free jobs have nothing of their last request.
-/

namespace Nngpp.Rest

open Function Lib

variable {strict : Prop} {s : Shared}

/-- A job that has nothing of a request, but for its aio. -/
structure Reset (x : Job) : Prop where
  httpAio : x.httpAio = none
  httpRes : x.httpRes = none
  msg : x.msg = none
  ctx : x.ctx = none

/-- Whose place it is. -/
def Place.job : Place → JobPtr
  | .slot j => j
  | .msg j => j

/-- The jobs on the list have nothing, and every message there is belongs to nng or
to a job in use, just once. -/
structure Clean (s : Shared) : Prop where
  free : ∀ l, Chain (fun j => (s.jobs j).next) s.freelist l →
    ∀ j ∈ l, Reset (s.jobs j) ∧ (s.jobs j).aio.slot = none
  accounted : ∀ m, s.heap m ≠ none →
    s.taken m ≠ none ∨ ∃ p r, held s p = some m ∧ s.request p.job = some r
  once : ∀ {p p' m}, held s p = some m → s.taken m = none ∧ (held s p' = some m → p = p')
  kept : ∀ m, s.lost m = false
  noFault : s.faults = []

theorem Inv.idle (hs : Inv strict s) {l : List JobPtr}
    (hchain : Chain (fun j => (s.jobs j).next) s.freelist l) {j : JobPtr} (hj : j ∈ l) :
    Idle strict (s.jobs j) := by
  obtain ⟨l', hchain', hmem⟩ := hs.listed.chain
  rw [hchain.unique hchain', hmem] at hj
  exact (hs.jobs j).of_free hj

/-- A job with a message is in use. -/
theorem Inv.in_use (hs : Inv True s) {p : Place} {m : MsgPtr} (hp : held s p = some m) :
    ∃ r, s.request p.job = some r := by
  have hempty : ∀ j, (s.jobs j).aio.slot = none → (s.jobs j).msg = none → p.job ≠ j := by
    rintro j hslot hmsg rfl
    cases p with
    | slot j => simp [held, show (s.jobs j).aio.slot = none from hslot] at hp
    | msg j => simp [held, show (s.jobs j).msg = none from hmsg] at hp
  cases hs.jobs p.job with
  | new owner job => exact absurd rfl (hempty p.job (by rw [job]) (by rw [job]))
  | free owner idle => exact absurd rfl (hempty p.job (idle.spent.empty trivial) idle.msg)
  | operation r owner request => exact ⟨r, request⟩
  | invocation t r owner request => exact ⟨r, request⟩

theorem Inv.clean (hs : Inv True s) : Clean s where
  free l hchain j hj := by
    have hidle := hs.idle hchain hj
    exact ⟨⟨hidle.httpAio, hidle.httpRes, hidle.msg, hidle.ctx⟩, hidle.spent.empty trivial⟩
  accounted m hm := by
    obtain helse | ⟨p, hp⟩ := hs.custody.covered hm
    · refine .inl (Option.isSome_iff_ne_none.mp ?_)
      simpa [elsewhere, hs.kept trivial m] using helse
    · obtain ⟨r, hr⟩ := hs.in_use hp
      exact .inr ⟨p, r, hp, hr⟩
  once hp := ⟨hs.custody.taken_of_held hp, fun hp' => hs.custody.exclusive hp hp'⟩
  kept := hs.kept trivial
  noFault := hs.noFault

variable {w : World} {data : Req → List UInt8} {tr : List (Transition World Label)}

/-- In every run, a job on the freelist has nothing in its own fields, and its aio
has a message just when the last operation on it was a send that failed. In a run
in which no send fails, nothing is left of a request whose job has been recycled. -/
theorem recycled_clean (run : Run Step (.init data) tr w) :
    (∀ l, Chain (fun j => (w.shared.jobs j).next) w.shared.freelist l → ∀ j ∈ l,
      Reset (w.shared.jobs j) ∧ ((w.shared.jobs j).aio.slot ≠ none ↔
        (w.shared.jobs j).state = .sendReq ∧ (w.shared.jobs j).aio.result ≠ .success)) ∧
    ((∀ e ∈ tr, e.label.Sends) → Clean w.shared) := by
  refine ⟨fun l hchain j hj => ?_, fun hok => (sound_run_of_sends run hok).inv.clean⟩
  have hidle := (sound_run run).inv.idle hchain hj
  exact ⟨⟨hidle.httpAio, hidle.httpRes, hidle.msg, hidle.ctx⟩, hidle.spent.slot⟩

/-- A reply has come back: the job 5 is free, and the message 9 is nng's. -/
theorem recycled_clean_exchanged :
    ∃ w, Run.follow exec (.init fun _ => [1, 2, 3]) exchanged = some w ∧
      w.shared.head = some 5 ∧ w.shared.taken 9 = some 5 ∧ w.shared.heap 11 = none ∧
      Clean w.shared := by
  obtain ⟨w, hw, hhead, htaken, hheap⟩ : ∃ w,
      Run.follow exec (.init fun _ => [1, 2, 3]) exchanged = some w ∧
        w.shared.head = some 5 ∧ w.shared.taken 9 = some 5 ∧ w.shared.heap 11 = none :=
    ⟨_, rfl, rfl, rfl, rfl⟩
  obtain ⟨tr, run, hlabels⟩ := Run.of_follow_labels hw
  have hok : ∀ e ∈ tr, e.label.Sends := by
    intro e he
    have hmem : e.label ∈ exchanged := by
      rw [← hlabels]
      exact List.mem_map_of_mem he
    have hall : ∀ l ∈ exchanged, l.Sends := by
      simp [exchanged, handled, statements, Label.Sends]
    exact hall _ hmem
  exact ⟨w, hw, hhead, htaken, hheap, (recycled_clean run).2 hok⟩

/-- The send of the message 9 fails. -/
def failed : List Label := handled ++ .sendDone 5 .timedout 1 :: statements 1 16

/-- The job 5 is used again, up to the point where its message is put into the aio. -/
def reused : List Label :=
  .request 1 2 :: statements 2 4 ++ [.run 2 (.ok 0), .run 2 (.ok 0), .run 2 (.ok 8)] ++
    statements 2 3 ++ [.run 2 (.ok 10)] ++ statements 2 2

/-- The message 9 is in the free job 5, and nobody has it any more when the job has
been used again. -/
theorem failed_send_leaks :
    ∃ w w', Run.follow exec (.init fun _ => [1, 2, 3]) failed = some w ∧ ¬ Clean w.shared ∧
      Run.follow exec w reused = some w' ∧ w'.shared.lost 9 = true := by
  refine ⟨_, _, rfl, fun hclean => ?_, rfl, rfl⟩
  obtain ⟨-, hslot⟩ := hclean.free [5] (.cons .nil) 5 (List.mem_singleton.mpr rfl)
  cases hslot

end Nngpp.Rest
