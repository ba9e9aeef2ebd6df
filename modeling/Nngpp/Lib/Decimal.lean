import Mathlib.Data.List.Basic
import Mathlib.Data.Nat.Notation

/-!
Decimal numbers in ASCII.

`value` is the number that some digits stand for, and `digits` writes a number. The
last digit is the one that both take off, as in `value_concat` and `digits_eq`, so that
the round trip is an induction on the number.
-/

namespace Nngpp.Lib.Decimal

def isDigit (c : UInt8) : Bool := '0'.toNat ≤ c.toNat ∧ c.toNat ≤ '9'.toNat

/-- The number that the digits stand for. -/
def value (ds : List UInt8) : ℕ := ds.foldl (fun v c => 10 * v + (c.toNat - '0'.toNat)) 0

/-- The digit of a number below ten. -/
def digit (n : ℕ) : UInt8 := UInt8.ofNat ('0'.toNat + n)

/-- A number, without leading zeros. -/
def digits (n : ℕ) : List UInt8 :=
  if n < 10 then [digit n] else digits (n / 10) ++ [digit (n % 10)]

@[simp] theorem value_nil : value [] = 0 := rfl

@[simp] theorem value_concat (ds : List UInt8) (c : UInt8) :
    value (ds ++ [c]) = 10 * value ds + (c.toNat - '0'.toNat) := by
  simp [value]

theorem toNat_digit {n : ℕ} (h : n < 10) : (digit n).toNat = '0'.toNat + n := by
  have hzero : '0'.toNat = 48 := rfl
  rw [digit, UInt8.toNat_ofNat']
  omega

theorem isDigit_digit {n : ℕ} (h : n < 10) : isDigit (digit n) = true := by
  have hnine : '9'.toNat = '0'.toNat + 9 := rfl
  simp only [isDigit, toNat_digit h, decide_eq_true_eq]
  omega

theorem digits_eq (n : ℕ) :
    digits n = (if n < 10 then [] else digits (n / 10)) ++ [digit (n % 10)] := by
  rw [digits]
  split
  · rename_i h
    rw [Nat.mod_eq_of_lt h, List.nil_append]
  · rfl

theorem digits_ne_nil (n : ℕ) : digits n ≠ [] := by
  rw [digits_eq]
  exact List.append_ne_nil_of_right_ne_nil _ (List.cons_ne_nil _ _)

/-- What is written is read back. -/
theorem value_digits (n : ℕ) : value (digits n) = n := by
  induction n using Nat.strongRecOn with
  | ind n ih =>
      rw [digits_eq, value_concat, toNat_digit (Nat.mod_lt n (by omega))]
      split
      · rw [value_nil]
        omega
      · rw [ih (n / 10) (by omega)]
        omega

theorem isDigit_of_mem_digits {n : ℕ} {c : UInt8} (h : c ∈ digits n) : isDigit c = true := by
  induction n using Nat.strongRecOn with
  | ind n ih =>
      rw [digits_eq, List.mem_append, List.mem_singleton] at h
      obtain h | rfl := h
      · split at h
        · cases h
        · exact ih (n / 10) (by omega) h
      · exact isDigit_digit (Nat.mod_lt n (by omega))

end Nngpp.Lib.Decimal
