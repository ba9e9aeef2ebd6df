import Nngpp.Core

/-!
The other side of a REP socket.

nng takes messages for the server, each from a peer. It may deliver them in any
order, again, or not at all. The server answers the message that it has received
last, and a reply goes back to the peer of that message. `κ` is what tells the
peers apart.
-/

namespace Nngpp

variable {κ : Type}

/-- The messages that nng has taken for the server, the peer whose message the
server has received and not answered, and the replies that nng has taken. -/
structure Rep (κ : Type) where
  asked : List (κ × List UInt8)
  current : Option κ
  replied : List (κ × List UInt8)

namespace Rep

def init : Rep κ := ⟨[], none, []⟩

/-- nng takes messages for the server. -/
def ask (s : Rep κ) (more : List (κ × List UInt8)) : Rep κ := { s with asked := s.asked ++ more }

/-- nng delivers a message that it has taken. -/
def deliver [DecidableEq κ] (s : Rep κ) (q : κ × List UInt8) : Option (Rep κ) :=
  if q ∈ s.asked then some { s with current := some q.1 } else none

/-- A reply to the message that was received last. -/
def reply (s : Rep κ) (body : List UInt8) : Error × Rep κ :=
  match s.current with
  | none => (.state, s)
  | some c => (.success, { s with current := none, replied := s.replied ++ [(c, body)] })

variable {s s' : Rep κ} {q : κ × List UInt8} {body : List UInt8} {c : κ}

@[simp] theorem asked_ask (more : List (κ × List UInt8)) :
    (s.ask more).asked = s.asked ++ more := rfl

@[simp] theorem current_ask (more : List (κ × List UInt8)) : (s.ask more).current = s.current := rfl

@[simp] theorem replied_ask (more : List (κ × List UInt8)) : (s.ask more).replied = s.replied := rfl

theorem deliver_eq_some [DecidableEq κ] :
    s.deliver q = some s' ↔ q ∈ s.asked ∧ { s with current := some q.1 } = s' := by
  rw [deliver, Option.ite_none_right_eq_some, Option.some.injEq]

theorem reply_of_current (h : s.current = some c) :
    s.reply body =
      (.success, { s with current := none, replied := s.replied ++ [(c, body)] }) := by
  rw [reply, h]

@[simp] theorem asked_reply : (s.reply body).2.asked = s.asked := by
  unfold reply
  split <;> rfl

end Rep

end Nngpp
