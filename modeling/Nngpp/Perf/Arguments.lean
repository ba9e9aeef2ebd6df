import Mathlib.Algebra.Group.Int.Defs
import Mathlib.Algebra.Group.Nat.Defs
import Mathlib.Data.Int.Notation
import Mathlib.Data.List.TakeWhile
import Nngpp.Lib.Decimal

/-!
The numbers on the command lines of `perf`.

`parse_int` reads a number with `strtol` and accepts it only if nothing is left of the
argument and the number is neither negative nor too large. `parseInt_eq_ok` says
which arguments these are.
-/

namespace Nngpp.Perf

open Lib Decimal

/-- `isspace`, in the "C" locale. -/
def isspace (c : UInt8) : Bool := c.toNat = 32 ∨ 9 ≤ c.toNat ∧ c.toNat ≤ 13

/-- An optional sign: whether it is a minus, and what comes after it. -/
def sign : List UInt8 → Bool × List UInt8
  | [] => (false, [])
  | c :: s =>
      if c.toNat = '-'.toNat then (true, s)
      else if c.toNat = '+'.toNat then (false, s)
      else (false, c :: s)

/-- `strtol(arg,&eptr,10)`: the value, and what is left at `eptr`. A `long` goes up to
`max`, and a value out of its range is replaced by the end of the range. -/
def strtol (max : ℕ) (arg : List UInt8) : ℤ × List UInt8 :=
  let s := sign (arg.dropWhile isspace)
  let ds := s.2.takeWhile isDigit
  if ds = [] then (0, arg)
  else if s.1 then (-((min (value ds) (max + 1) : ℕ) : ℤ), s.2.dropWhile isDigit)
  else ((min (value ds) max : ℕ), s.2.dropWhile isDigit)

/-- `static int parse_int(const char* arg, const char* what)`. -/
def parseInt (max : ℕ) (arg : List UInt8) (what : String) : Except String ℤ :=
  let (val, eptr) := strtol max arg
  if val < 0 ∨ val > 2 ^ 30 ∨ eptr ≠ [] ∨ eptr = arg then throw what
  else return (BitVec.ofInt 32 val).toInt

/-- What `parse_int` accepts, with the number: blanks, a sign, and digits. A minus is only
good before zero. -/
inductive Accepts : List UInt8 → ℕ → Prop
  | mk {blanks sgn ds : List UInt8} (hblank : ∀ c ∈ blanks, isspace c = true)
      (hsgn : sgn = [] ∨ sgn = ['+'.toUInt8] ∨ sgn = ['-'.toUInt8] ∧ value ds = 0)
      (hne : ds ≠ []) (hdigit : ∀ c ∈ ds, isDigit c = true) (hle : value ds ≤ 2 ^ 30) :
      Accepts (blanks ++ sgn ++ ds) (value ds)

/-! ### `strtol` -/

section Strtol

variable {max : ℕ} {arg s ds : List UInt8} {b : Bool}

theorem isspace_of_isDigit {c : UInt8} (h : isDigit c = true) : isspace c = false := by
  have hzero : '0'.toNat = 48 := rfl
  simp only [isDigit, isspace, decide_eq_true_eq, decide_eq_false_iff_not] at h ⊢
  omega

/-- A digit is no sign. -/
theorem sign_of_isDigit {c : UInt8} (h : isDigit c = true) : sign (c :: s) = (false, c :: s) := by
  have hzero : '0'.toNat = 48 := rfl
  have hminus : '-'.toNat = 45 := rfl
  have hplus : '+'.toNat = 43 := rfl
  simp only [isDigit, decide_eq_true_eq] at h
  rw [sign, if_neg (by omega), if_neg (by omega)]

/-- What is before and what is after a sign. -/
theorem sign_spec (s : List UInt8) : ∃ sgn, s = sgn ++ (sign s).2 ∧
    ((sgn = [] ∨ sgn = ['+'.toUInt8]) ∧ (sign s).1 = false ∨
      sgn = ['-'.toUInt8] ∧ (sign s).1 = true) := by
  cases s with
  | nil => exact ⟨[], rfl, .inl ⟨.inl rfl, rfl⟩⟩
  | cons c s =>
      by_cases hminus : c.toNat = '-'.toNat
      · have hc : c = '-'.toUInt8 := UInt8.toNat_inj.mp hminus
        have hsign : sign (c :: s) = (true, s) := by rw [sign, if_pos hminus]
        rw [hsign, hc]
        exact ⟨['-'.toUInt8], rfl, .inr ⟨rfl, rfl⟩⟩
      · by_cases hplus : c.toNat = '+'.toNat
        · have hc : c = '+'.toUInt8 := UInt8.toNat_inj.mp hplus
          have hsign : sign (c :: s) = (false, s) := by rw [sign, if_neg hminus, if_pos hplus]
          rw [hsign, hc]
          exact ⟨['+'.toUInt8], rfl, .inl ⟨.inr rfl, rfl⟩⟩
        · have hsign : sign (c :: s) = (false, c :: s) := by
            rw [sign, if_neg hminus, if_neg hplus]
          rw [hsign]
          exact ⟨[], rfl, .inl ⟨.inl rfl, rfl⟩⟩

/-- An argument that is a number, but for blanks and a sign in front. -/
theorem strtol_digits (hne : ds ≠ []) (hdigit : ∀ c ∈ ds, isDigit c = true)
    (hsign : sign (arg.dropWhile isspace) = (b, ds)) :
    strtol max arg =
      (if b then -((min (value ds) (max + 1) : ℕ) : ℤ) else (min (value ds) max : ℕ), []) := by
  have htake : ds.takeWhile isDigit = ds := List.takeWhile_eq_self_iff.mpr hdigit
  have hdrop : ds.dropWhile isDigit = [] := List.dropWhile_eq_nil_iff.mpr hdigit
  simp only [strtol, hsign, htake, hdrop, if_neg hne]
  split <;> rfl

end Strtol

/-! ### `parse_int` -/

section ParseInt

variable {max : ℕ} {arg : List UInt8} {what : String}

/-- A number in range is not changed when it becomes an `int`. -/
theorem toInt_ofInt {n : ℕ} (h : n ≤ 2 ^ 30) : (BitVec.ofInt 32 n).toInt = n := by
  apply BitVec.toInt_ofInt_eq_self (by omega)
  · omega
  · omega

/-- The blanks are skipped, and the sign is seen. -/
theorem sign_dropWhile {blanks sgn ds : List UInt8} (hblank : ∀ c ∈ blanks, isspace c = true)
    (hsgn : sgn = [] ∨ sgn = ['+'.toUInt8] ∨ sgn = ['-'.toUInt8]) (hne : ds ≠ [])
    (hdigit : ∀ c ∈ ds, isDigit c = true) :
    sign ((blanks ++ sgn ++ ds).dropWhile isspace) = (decide (sgn = ['-'.toUInt8]), ds) := by
  rw [List.append_assoc, List.dropWhile_append_of_pos hblank]
  obtain ⟨c, s, rfl⟩ := List.exists_cons_of_ne_nil hne
  have hc : isDigit c = true := hdigit c (List.mem_cons_self ..)
  obtain rfl | rfl | rfl := hsgn
  · rw [List.nil_append, List.dropWhile_cons_of_neg (by simp [isspace_of_isDigit hc])]
    exact sign_of_isDigit hc
  · rw [List.singleton_append, List.dropWhile_cons_of_neg (by decide)]
    rfl
  · rw [List.singleton_append, List.dropWhile_cons_of_neg (by decide)]
    rfl

theorem parseInt_of_strtol {n : ℕ} (h : strtol max arg = ((n : ℤ), [])) (harg : arg ≠ [])
    (hn : n ≤ 2 ^ 30) : parseInt max arg what = .ok n := by
  have hrange : ¬((n : ℤ) < 0 ∨ (n : ℤ) > 2 ^ 30 ∨ ([] : List UInt8) ≠ [] ∨ [] = arg) := by
    rintro (hlt | hgt | hrest | heq)
    · omega
    · omega
    · exact hrest rfl
    · exact harg heq.symm
  simp only [parseInt, h, if_neg hrange, toInt_ofInt hn]
  rfl

theorem parseInt_of_accepts {n : ℕ} (hmax : 2 ^ 30 < max) (h : Accepts arg n) :
    parseInt max arg what = .ok n := by
  cases h with
  | @mk blanks sgn ds hblank hsgn hne hdigit hle =>
      have hsign := sign_dropWhile hblank (hsgn.imp_right (Or.imp_right And.left)) hne hdigit
      have hstrtol : strtol max (blanks ++ sgn ++ ds) = _ := strtol_digits hne hdigit hsign
      apply parseInt_of_strtol
      · rw [hstrtol]
        by_cases hminus : sgn = ['-'.toUInt8]
        · obtain rfl | rfl | ⟨-, hzero⟩ := hsgn
          · cases hminus
          · exact absurd hminus (by decide)
          · rw [if_pos (decide_eq_true hminus), hzero, Nat.zero_min]
            rfl
        · rw [if_neg (by simpa using hminus), Nat.min_eq_left (by omega)]
      · simp [hne]
      · exact hle

/-- Nothing is left of what is accepted, and the value is in range. -/
theorem strtol_of_parseInt {m : ℤ} (h : parseInt max arg what = .ok m) :
    ∃ val, strtol max arg = (val, []) ∧ 0 ≤ val ∧ val ≤ 2 ^ 30 ∧ arg ≠ [] := by
  unfold parseInt at h
  generalize strtol max arg = r at h ⊢
  obtain ⟨val, eptr⟩ := r
  simp only at h
  split at h
  · cases h
  · rename_i hrange
    simp only [not_or, not_not] at hrange
    obtain ⟨hnonneg, hle, rfl, harg⟩ := hrange
    exact ⟨val, rfl, Int.not_lt.mp hnonneg, Int.not_lt.mp hle, fun heq => harg heq.symm⟩

theorem accepts_of_parseInt {m : ℤ} (hmax : 2 ^ 30 < max) (h : parseInt max arg what = .ok m) :
    ∃ n, Accepts arg n := by
  obtain ⟨val, hstrtol, hnonneg, hle, harg⟩ := strtol_of_parseInt h
  obtain ⟨sgn, hsgn, hb⟩ := sign_spec (arg.dropWhile isspace)
  have hparts : arg = arg.takeWhile isspace ++ sgn ++ (sign (arg.dropWhile isspace)).2 := by
    rw [List.append_assoc, ← hsgn, List.takeWhile_append_dropWhile]
  have hblank : ∀ c ∈ arg.takeWhile isspace, isspace c = true := fun _ => List.mem_takeWhile_imp
  simp only [strtol] at hstrtol
  generalize sign (arg.dropWhile isspace) = r at hb hparts hstrtol
  obtain ⟨neg, s⟩ := r
  split at hstrtol
  · exact absurd (Prod.mk.inj hstrtol).2 harg
  · rename_i hne
    -- nothing is left, so that the digits are all there is
    have hrest : s.dropWhile isDigit = [] := by
      split at hstrtol
      · exact (Prod.mk.inj hstrtol).2
      · exact (Prod.mk.inj hstrtol).2
    have hs : s.takeWhile isDigit = s := by
      have happend := List.takeWhile_append_dropWhile (p := isDigit) (l := s)
      rwa [hrest, List.append_nil] at happend
    have hdigit : ∀ c ∈ s, isDigit c = true := List.dropWhile_eq_nil_iff.mp hrest
    simp only [hs] at hne hstrtol
    rw [hparts]
    obtain ⟨hplus, rfl⟩ | ⟨hminus, rfl⟩ := hb
    · obtain ⟨hval, -⟩ := Prod.mk.inj hstrtol
      refine ⟨value s, .mk hblank ?_ hne hdigit ?_⟩
      · exact hplus.imp_right .inl
      · show value s ≤ 2 ^ 30
        omega
    · obtain ⟨hval, -⟩ := Prod.mk.inj hstrtol
      have hzero : value s = 0 := by omega
      refine ⟨value s, .mk hblank (.inr (.inr ⟨hminus, hzero⟩)) hne hdigit ?_⟩
      rw [hzero]
      omega

/-- What `parse_int` accepts, and the number that it returns; it throws `what` for everything
else. -/
theorem parseInt_eq_ok {m : ℤ} (hmax : 2 ^ 30 < max) :
    parseInt max arg what = .ok m ↔ ∃ n, Accepts arg n ∧ m = n := by
  constructor
  · intro h
    obtain ⟨n, haccepts⟩ := accepts_of_parseInt hmax h
    refine ⟨n, haccepts, ?_⟩
    rw [parseInt_of_accepts hmax haccepts] at h
    exact (Except.ok.inj h).symm
  · rintro ⟨n, haccepts, rfl⟩
    exact parseInt_of_accepts hmax haccepts

/-- The argument is " +0042". -/
theorem parseInt_eq_ok_blanks :
    parseInt (2 ^ 63 - 1) [32, 43, 48, 48, 52, 50] "Invalid count" = .ok 42 := by
  have haccepts : Accepts ([32] ++ [43] ++ [48, 48, 52, 50]) (value [48, 48, 52, 50]) :=
    .mk (List.all_eq_true.mp rfl) (by decide) (by decide) (List.all_eq_true.mp rfl) (by decide)
  exact (parseInt_eq_ok (by decide)).mpr ⟨42, haccepts, rfl⟩

/-- There is one exception. -/
theorem parseInt_eq_error (h : ∀ m, parseInt max arg what ≠ .ok m) :
    parseInt max arg what = .error what := by
  unfold parseInt at h ⊢
  generalize strtol max arg = r at h ⊢
  obtain ⟨val, eptr⟩ := r
  simp only at h ⊢
  split
  · rfl
  · rename_i hrange
    rw [if_neg hrange] at h
    exact absurd rfl (h _)

/-- What is written without blanks and signs is accepted as its number. -/
theorem accepts_digits {n m : ℕ} : Accepts (digits n) m ↔ m = n ∧ n ≤ 2 ^ 30 := by
  constructor
  · intro h
    generalize hs : digits n = s at h
    cases h with
    | @mk blanks sgn ds hblank hsgn hne hdigit hle =>
        have hall : ∀ c ∈ blanks ++ sgn ++ ds, isDigit c = true := by
          rw [← hs]
          exact fun c hc => isDigit_of_mem_digits hc
        have hblanks : blanks = [] := by
          apply List.eq_nil_iff_forall_not_mem.mpr
          intro c hc
          have hfalse := isspace_of_isDigit (hall c (by simp [hc]))
          rw [hblank c hc] at hfalse
          cases hfalse
        have hnone : sgn = [] := by
          obtain rfl | rfl | ⟨rfl, -⟩ := hsgn
          · rfl
          · exact absurd (hall '+'.toUInt8 (by simp)) (by decide)
          · exact absurd (hall '-'.toUInt8 (by simp)) (by decide)
        rw [hblanks, hnone, List.nil_append, List.nil_append] at hs
        rw [← hs, value_digits] at hle ⊢
        exact ⟨rfl, hle⟩
  · rintro ⟨rfl, hle⟩
    have haccepts : Accepts ([] ++ [] ++ digits m) (value (digits m)) := by
      apply Accepts.mk
      · exact fun _ hc => by cases hc
      · exact .inl rfl
      · exact digits_ne_nil m
      · exact fun _ hc => isDigit_of_mem_digits hc
      · rwa [value_digits]
    rwa [value_digits] at haccepts

/-- A number that is printed is read back, if it is in range, and refused otherwise. -/
theorem parseInt_digits {n : ℕ} (hmax : 2 ^ 30 < max) :
    parseInt max (digits n) what = if n ≤ 2 ^ 30 then .ok (n : ℤ) else .error what := by
  split
  · rename_i hle
    exact parseInt_of_accepts hmax (accepts_digits.mpr ⟨rfl, hle⟩)
  · rename_i hgt
    apply parseInt_eq_error
    intro m hm
    obtain ⟨k, hk⟩ := accepts_of_parseInt hmax hm
    exact hgt (accepts_digits.mp hk).2

theorem parseInt_digits_range :
    parseInt (2 ^ 63 - 1) (digits (2 ^ 30)) "Invalid count" = .ok (2 ^ 30) ∧
      parseInt (2 ^ 63 - 1) (digits (2 ^ 64)) "Invalid count" = .error "Invalid count" :=
  ⟨parseInt_digits (by decide), parseInt_digits (by decide)⟩

end ParseInt

end Nngpp.Perf
