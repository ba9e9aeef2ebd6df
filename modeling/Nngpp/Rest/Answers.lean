import Nngpp.Rest.Runs

/-!
Each request is answered once, by its own job.

The invariant says so of every state. What is left is to read it off: the answers
to a request and what they carry, the list, and the two kinds of jobs. That no
invocation touches a job which it has given away is the absence of faults.
-/

namespace Nngpp.Rest

open Function Lib

variable {strict : Prop} {s : Shared}

/-- The jobs and the requests of a state. -/
structure Orderly (s : Shared) : Prop where
  /-- No request is finished twice. -/
  once : ∀ r, (answers s r).length ≤ 1
  /-- A request is finished with what was delivered for it, or with a failure. -/
  own : ∀ f ∈ s.log, Settled f.req (s.reply f.req) f
  /-- The freelist is a chain without repetitions, and each job that was made is on
  it, or is in use by one request, and not both. -/
  jobs : ∃ l, Chain (fun j => (s.jobs j).next) s.freelist l ∧ l.Nodup ∧
    (∀ j ∈ l, s.owner j ≠ none) ∧
    ∀ j, s.owner j ≠ none → (j ∈ l ∧ s.request j = none ∨
      j ∉ l ∧ ∃ r, s.request j = some r ∧ ∀ i, s.request i = some r → i = j)
  /-- No job is touched by an invocation that does not have it, or destroyed, and no
  null handle is used. -/
  noFault : s.faults = []

theorem Inv.orderly (hs : Inv strict s) : Orderly s where
  once r := by
    cases hs.requests r with
    | new stage log => simp [log]
    | invocation t stage log => simp [log]
    | operation j stage log => simp [log]
    | answered f stage log => simp [log]
  own f hf := by
    have hmem : f ∈ answers s f.req := List.mem_filter.mpr ⟨hf, by simp⟩
    cases hs.requests f.req with
    | new stage log => simp [log] at hmem
    | invocation t stage log => simp [log] at hmem
    | operation j stage log => simp [log] at hmem
    | answered f' stage log settled =>
        obtain rfl : f = f' := by simpa [log] using hmem
        exact settled
  jobs := by
    obtain ⟨l, hchain, hmem⟩ := hs.listed.chain
    refine ⟨l, hchain, hchain.nodup, fun j hj => by simp [(hmem j).mp hj], ?_⟩
    intro j hj
    have hused : ∀ r, s.request j = some r → s.owner j ≠ some .free → j ∉ l ∧
        ∃ r, s.request j = some r ∧ ∀ i, s.request i = some r → i = j :=
      fun r hr howner => ⟨mt (hmem j).mp howner, r, hr, fun i hi => hs.exclusive hi hr⟩
    cases hs.jobs j with
    | new owner => exact absurd owner hj
    | free owner idle request => exact .inl ⟨(hmem j).mpr owner, request⟩
    | operation r owner request => exact .inr (hused r request (by simp [owner]))
    | invocation t r owner request => exact .inr (hused r request (by simp [owner]))
  noFault := hs.noFault

variable {w : World} {data : Req → List UInt8} {tr : List (Transition World Label)}

/-- When an invocation that has recycled the job of a request returns, the request
is answered. -/
theorem Sound.answered (hw : Sound strict w) {r : Req} {t : Tid}
    (hrecycled : w.shared.recycledBy r = some t) (ht : w.code t = some (.pure ())) :
    (answers w.shared r).length = 1 := by
  have hs : Inv strict w.shared := hw.inv
  obtain ⟨v, hsees, hdone⟩ := hw.returned ht
  have hsees : Sees t w.shared v := hsees
  cases hs.requests r with
  | new stage log output reply recycled =>
      rw [recycled] at hrecycled
      cases hrecycled
  | invocation u stage log recycled =>
      -- the invocation would still have the request to answer
      rw [← recycled t hrecycled] at stage
      exact absurd stage (hsees.settled hdone.pending r)
  | operation j stage log output recycled =>
      rw [recycled] at hrecycled
      cases hrecycled
  | answered f stage log => simp [log]

/-- Some statements of an invocation, with the same answer. -/
def statements (t : Tid) (n : ℕ) : List Label := List.replicate n (.run t (.ok 0))

/-- The thread 0 handles the request 0 with the new job 5, and starts to send the
message 9. -/
def handled : List Label :=
  .request 0 0 :: statements 0 3 ++ [.run 0 (.ok 5)] ++ statements 0 2 ++ [.run 0 (.ok 7)] ++
    statements 0 3 ++ [.run 0 (.ok 9)] ++ statements 0 4

/-- The message is sent, and a reply comes back. -/
def exchanged : List Label :=
  handled ++ .sendDone 5 .success 1 :: statements 1 5 ++
    .recvDone 5 (.ok (11, [4, 5])) 2 :: statements 2 17

end Nngpp.Rest
