import Mathlib.Data.Nat.Notation
import Mathlib.Algebra.Order.Ring.Nat
import Mathlib.Data.List.Induction
import Mathlib.Tactic.Ring

/-!
Numbers in network byte order.

`encode n v` is the number `v` in `n` bytes, the most significant first, and
`decode` reads bytes back. The last byte is the one that both definitions take
off, so that the round trip is an induction which meets no arithmetic but that of
one digit.
-/

namespace Nngpp.Lib.BigEndian

/-- The low `n` bytes of a number, the most significant first. -/
def encode : ℕ → ℕ → List UInt8
  | 0, _ => []
  | n + 1, v => encode n (v / 256) ++ [UInt8.ofNat v]

/-- The number with these bytes. -/
def decode (bytes : List UInt8) : ℕ :=
  bytes.foldl (fun v b => 256 * v + b.toNat) 0

@[simp] theorem decode_nil : decode [] = 0 := rfl

@[simp] theorem decode_concat (bytes : List UInt8) (b : UInt8) :
    decode (bytes ++ [b]) = 256 * decode bytes + b.toNat := by
  simp [decode]

@[simp] theorem length_encode (n v : ℕ) : (encode n v).length = n := by
  induction n generalizing v with
  | zero => rfl
  | succ n ih => simp [encode, ih]

theorem toNat_ofNat_mod (v : ℕ) : (UInt8.ofNat v).toNat = v % 256 := by
  simp

theorem decode_encode (n v : ℕ) : decode (encode n v) = v % 256 ^ n := by
  induction n generalizing v with
  | zero => simp [encode, Nat.mod_one]
  | succ n ih =>
      rw [encode, decode_concat, ih, toNat_ofNat_mod, pow_succ', Nat.mod_mul]
      omega

/-- A number that fits is read back. -/
theorem decode_encode_of_lt {n v : ℕ} (h : v < 256 ^ n) : decode (encode n v) = v := by
  rw [decode_encode, Nat.mod_eq_of_lt h]

theorem decode_lt (bytes : List UInt8) : decode bytes < 256 ^ bytes.length := by
  induction bytes using List.reverseRecOn with
  | nil => exact Nat.one_pos
  | append_singleton bytes b ih =>
      have hb := b.toNat_lt
      rw [decode_concat, List.length_append, List.length_singleton, pow_succ]
      omega

/-- Bytes are written back as they were read. -/
theorem encode_decode (bytes : List UInt8) : encode bytes.length (decode bytes) = bytes := by
  induction bytes using List.reverseRecOn with
  | nil => rfl
  | append_singleton bytes b ih =>
      have hdiv : (256 * decode bytes + b.toNat) / 256 = decode bytes := by
        have hb := b.toNat_lt
        omega
      have hlast : UInt8.ofNat (256 * decode bytes + b.toNat) = b := by
        apply UInt8.toNat_inj.mp
        rw [toNat_ofNat_mod]
        have hb := b.toNat_lt
        omega
      rw [List.length_append, List.length_singleton, encode, decode_concat, hdiv, hlast, ih]

/-- A bit vector of whole bytes goes there and back. -/
theorem ofNat_decode_encode {n : ℕ} (v : BitVec (8 * n)) :
    BitVec.ofNat (8 * n) (decode (encode n v.toNat)) = v := by
  have hv : v.toNat < 256 ^ n := by
    calc v.toNat < 2 ^ (8 * n) := v.isLt
      _ = 256 ^ n := by rw [pow_mul]; rfl
  rw [decode_encode_of_lt hv, BitVec.ofNat_toNat, BitVec.setWidth_eq]

end Nngpp.Lib.BigEndian
