import Mathlib.Algebra.Group.Nat.Defs
import Mathlib.Data.Int.Notation
import Mathlib.Data.List.Basic

/-!
What the REP server of `demo/rest/server.cpp` makes of a message.

The loop of `inproc_server` changes the body in place, letter by letter. It counts
with an `int`, so that of a body with 2^31 bytes or more it changes only a part;
but it never leaves the body, and doing it twice changes nothing.
-/

namespace Nngpp.Rest

/-- `isupper`, in the C locale. -/
def isupper (c : UInt8) : Bool := 'A'.toNat ≤ c.toNat ∧ c.toNat ≤ 'Z'.toNat

/-- `islower`, in the C locale. -/
def islower (c : UInt8) : Bool := 'a'.toNat ≤ c.toNat ∧ c.toNat ≤ 'z'.toNat

/-- The body of the loop, for one byte. -/
def rot13 (c : UInt8) : UInt8 :=
  if isupper c then
    let base := c.toNat - 'A'.toNat
    let base := (base + 13) % 26
    UInt8.ofNat (base + 'A'.toNat)
  else if islower c then
    let base := c.toNat - 'a'.toNat
    let base := (base + 13) % 26
    UInt8.ofNat (base + 'a'.toNat)
  else c

/-- `(int)n`. -/
def toInt (n : ℕ) : ℤ := (BitVec.ofNat 32 n).toInt

/-- The loop, with `k` rounds to go. -/
def rotLoop : ℕ → ℕ → List UInt8 → List UInt8
  | 0, _, body => body
  | k + 1, i, body => rotLoop k (i + 1) (body.modify i rot13)

/-- `for(int i = 0; i < size; ++i)`, with `auto size = (int)msg.body().size();`. -/
def rotBody (body : List UInt8) : List UInt8 := rotLoop (toInt body.length).toNat 0 body

/-! ### One byte -/

theorem isupper_iff {c : UInt8} : isupper c = true ↔ 65 ≤ c.toNat ∧ c.toNat ≤ 90 := by
  simp [isupper]

theorem islower_iff {c : UInt8} : islower c = true ↔ 97 ≤ c.toNat ∧ c.toNat ≤ 122 := by
  simp [islower]

/-- A capital letter becomes the one that is 13 letters away. -/
theorem toNat_rot13_upper {c : UInt8} (h : isupper c = true) :
    (rot13 c).toNat = 65 + (c.toNat - 65 + 13) % 26 := by
  rw [rot13, if_pos h]
  simp only [UInt8.toNat_ofNat']
  have hlt : (c.toNat - 'A'.toNat + 13) % 26 < 26 := Nat.mod_lt _ (by omega)
  have hA : 'A'.toNat = 65 := rfl
  omega

theorem toNat_rot13_lower {c : UInt8} (h : islower c = true) :
    (rot13 c).toNat = 97 + (c.toNat - 97 + 13) % 26 := by
  have hupper : isupper c = false := by
    have hlower := islower_iff.mp h
    rw [Bool.eq_false_iff, Ne, isupper_iff]
    omega
  rw [rot13, hupper, if_neg Bool.false_ne_true, if_pos h]
  simp only [UInt8.toNat_ofNat']
  have hlt : (c.toNat - 'a'.toNat + 13) % 26 < 26 := Nat.mod_lt _ (by omega)
  have ha : 'a'.toNat = 97 := rfl
  omega

theorem rot13_other {c : UInt8} (hupper : isupper c = false) (hlower : islower c = false) :
    rot13 c = c := by
  simp [rot13, hupper, hlower]

theorem isupper_rot13 {c : UInt8} (h : isupper c = true) : isupper (rot13 c) = true := by
  rw [isupper_iff, toNat_rot13_upper h]
  omega

theorem islower_rot13 {c : UInt8} (h : islower c = true) : islower (rot13 c) = true := by
  rw [islower_iff, toNat_rot13_lower h]
  omega

theorem rot13_rot13 (c : UInt8) : rot13 (rot13 c) = c := by
  by_cases hupper : isupper c = true
  · have hrange := isupper_iff.mp hupper
    apply UInt8.toNat_inj.mp
    rw [toNat_rot13_upper (isupper_rot13 hupper), toNat_rot13_upper hupper]
    omega
  · by_cases hlower : islower c = true
    · have hrange := islower_iff.mp hlower
      apply UInt8.toNat_inj.mp
      rw [toNat_rot13_lower (islower_rot13 hlower), toNat_rot13_lower hlower]
      omega
    · have hother := rot13_other (Bool.eq_false_iff.mpr hupper) (Bool.eq_false_iff.mpr hlower)
      rw [hother, hother]

/-! ### The loop -/

@[simp] theorem length_rotLoop (k i : ℕ) (body : List UInt8) :
    (rotLoop k i body).length = body.length := by
  induction k generalizing i body with
  | zero => rfl
  | succ k ih => rw [rotLoop, ih, List.length_modify]

/-- The bytes that the loop passes are changed, and no others. -/
theorem getElem?_rotLoop (k i j : ℕ) (body : List UInt8) : (rotLoop k i body)[j]? =
    if i ≤ j ∧ j < i + k then body[j]?.map rot13 else body[j]? := by
  induction k generalizing i body with
  | zero =>
      rw [rotLoop, if_neg (by omega)]
  | succ k ih =>
      rw [rotLoop, ih, List.getElem?_modify]
      by_cases hij : i = j
      · subst hij
        rw [if_neg (by omega), if_pos (by omega)]
        cases body[i]? <;> simp
      · have hiff : i + 1 ≤ j ∧ j < i + 1 + k ↔ i ≤ j ∧ j < i + (k + 1) := by omega
        simp only [hij, if_false, hiff]
        cases body[j]? <;> simp

/-- The loop stays within the body. -/
theorem toInt_toNat_le (n : ℕ) : (toInt n).toNat ≤ n := by
  rw [toInt, BitVec.toInt_eq_toNat_cond, BitVec.toNat_ofNat]
  have hmod : n % 2 ^ 32 ≤ n := Nat.mod_le ..
  split <;> omega

/-- An `int` can hold the size of a body that is not too long. -/
theorem toInt_of_lt {n : ℕ} (h : n < 2 ^ 31) : (toInt n).toNat = n := by
  rw [toInt, BitVec.toInt_eq_toNat_cond, BitVec.toNat_ofNat, Nat.mod_eq_of_lt (by omega)]
  split <;> omega

@[simp] theorem length_rotBody (body : List UInt8) : (rotBody body).length = body.length :=
  length_rotLoop ..

theorem getElem?_rotBody (body : List UInt8) (j : ℕ) : (rotBody body)[j]? =
    if j < (toInt body.length).toNat then body[j]?.map rot13 else body[j]? := by
  rw [rotBody, getElem?_rotLoop]
  simp

/-- Twice the loop is nothing, also for a body that it does not change completely. -/
theorem rotBody_rotBody (body : List UInt8) : rotBody (rotBody body) = body := by
  apply List.ext_getElem?
  intro j
  rw [getElem?_rotBody, getElem?_rotBody, length_rotBody]
  split
  · cases body[j]? <;> simp [rot13_rot13]
  · rfl

theorem rotBody_of_lt {body : List UInt8} (h : body.length < 2 ^ 31) :
    rotBody body = body.map rot13 := by
  apply List.ext_getElem?
  intro j
  rw [getElem?_rotBody, toInt_of_lt h, List.getElem?_map]
  split
  · rfl
  · rw [List.getElem?_eq_none (by omega), Option.map_none]

example : rotBody [72, 105, 33] = [85, 118, 33] := by decide

end Nngpp.Rest
