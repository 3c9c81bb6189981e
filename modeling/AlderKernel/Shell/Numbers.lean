import Mathlib.Data.Nat.Digits.Lemmas
import AlderKernel.Machine.Memory

/-!
# Numbers that are typed

`str_to_uint` of `kernel/shell/util.c` adds the digits at the beginning of a string to a word of 32
bits, one after the other. A string is the list of the characters in front of its `'\0'`.
-/

namespace AlderKernel.Shell

open Machine

/-- The loop of `str_to_uint`. -/
def strToUintFrom : List U8 → U32 → U32
  | [], result => result
  | c :: s, result =>
    if 0x30#8 ≤ c ∧ c ≤ 0x39#8 then
      strToUintFrom s (result * 10#32 + (c.setWidth 32 - 0x30#32))
    else result

/-- `str_to_uint`. -/
def strToUint (s : List U8) : U32 := strToUintFrom s 0#32

/-- A decimal digit. -/
def IsDigit (c : U8) : Prop := 0x30#8 ≤ c ∧ c ≤ 0x39#8

instance (c : U8) : Decidable (IsDigit c) := inferInstanceAs (Decidable (_ ∧ _))

/-- The digits at the beginning of a string. -/
def digitRun (s : List U8) : List U8 := s.takeWhile fun c => IsDigit c

/-- The number that digits denote. -/
def valueOf (digits : List U8) : ℕ := Nat.ofDigits 10 (digits.map fun c => c.toNat - 48).reverse

section

variable {c : U8} {s : List U8}

/-- A digit in front belongs to the digits at the beginning. -/
theorem digitRun_cons_of_digit (h : IsDigit c) : digitRun (c :: s) = c :: digitRun s :=
  List.takeWhile_cons_of_pos (by simpa using h)

/-- Without a digit in front there are no digits at the beginning. -/
theorem digitRun_cons_of_not (h : ¬ IsDigit c) : digitRun (c :: s) = [] :=
  List.takeWhile_cons_of_neg (by simpa using h)

/-- No digits denote 0. -/
theorem valueOf_nil : valueOf [] = 0 := by simp [valueOf]

/-- The first digit counts as often as the number of digits behind it says. -/
theorem valueOf_cons (c : U8) (digits : List U8) :
    valueOf (c :: digits) = (c.toNat - 48) * 10 ^ digits.length + valueOf digits := by
  unfold valueOf
  rw [List.map_cons, Nat.ofDigits_reverse_cons, List.length_map]
  ring

/-- The accumulator takes in the digits of the run, modulo `2 ^ 32`. -/
theorem strToUintFrom_eq (s : List U8) (result : U32) :
    strToUintFrom s result =
      BitVec.ofNat 32 (result.toNat * 10 ^ (digitRun s).length + valueOf (digitRun s)) := by
  induction s generalizing result with
  | nil =>
    have hrun : digitRun [] = [] := List.takeWhile_nil
    rw [strToUintFrom, hrun, valueOf_nil]
    simp
  | cons c s ih =>
    rw [strToUintFrom]
    by_cases hdigit : 0x30#8 ≤ c ∧ c ≤ 0x39#8
    · have hnext : (result * 10#32 + (c.setWidth 32 - 0x30#32)).toNat % 2 ^ 32 =
          (result.toNat * 10 + (c.toNat - 48)) % 2 ^ 32 := by
        obtain ⟨hlow, hhigh⟩ := hdigit
        bv_omega
      have hsum : result.toNat * 10 ^ ((digitRun s).length + 1) +
          ((c.toNat - 48) * 10 ^ (digitRun s).length + valueOf (digitRun s)) =
            (result.toNat * 10 + (c.toNat - 48)) * 10 ^ (digitRun s).length +
              valueOf (digitRun s) := by
        ring
      rw [if_pos hdigit, ih, digitRun_cons_of_digit hdigit, valueOf_cons, List.length_cons, hsum]
      apply BitVec.eq_of_toNat_eq
      rw [BitVec.toNat_ofNat, BitVec.toNat_ofNat]
      exact ((Nat.ModEq.mul_right _ hnext).add_right _ : _ ≡ _ [MOD 2 ^ 32])
    · rw [if_neg hdigit, digitRun_cons_of_not hdigit, valueOf_nil]
      simp

/-- `str_to_uint` gives the number that the digits at the beginning denote, modulo `2 ^ 32`. -/
theorem strToUint_toNat (s : List U8) : (strToUint s).toNat = valueOf (digitRun s) % 2 ^ 32 := by
  unfold strToUint
  rw [strToUintFrom_eq, BitVec.toNat_ofNat, BitVec.toNat_ofNat, Nat.zero_mod, Nat.zero_mul,
    Nat.zero_add]

end

end AlderKernel.Shell
