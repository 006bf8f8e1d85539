import Mathlib.Data.FinEnum
import Mathlib.Tactic.Common
import SpendCheck.Machine.Stack

namespace SpendCheck.Number

variable {negative : Bool} {n size : Nat}

theorem isNegative_cons {rest : Bytes} (h : rest ≠ []) (b : UInt8) :
    isNegative (b :: rest) = isNegative rest := by
  rw [isNegative, isNegative, List.getLast?_cons_of_ne_nil h]

theorem magnitude_cons {rest : Bytes} (h : rest ≠ []) (b : UInt8) :
    magnitude (b :: rest) = b.toNat + 256 * magnitude rest := by
  cases rest with
  | nil => exact absurd rfl h
  | cons c rest => rfl

theorem sign_cons {rest : Bytes} (h : rest ≠ []) (b : UInt8) :
    sign negative (b :: rest) = b :: sign negative rest := by
  cases rest with
  | nil => exact absurd rfl h
  | cons c rest => rfl

/-- The sign is put into the last byte or behind it. -/
theorem sign_append_singleton (front : Bytes) (last : UInt8) :
    sign negative (front ++ [last]) = front ++ sign negative [last] := by
  induction front with
  | nil => rfl
  | cons b front ih =>
    rw [List.cons_append, sign_cons (List.append_ne_nil_of_right_ne_nil front (List.cons_ne_nil last [])),
      ih, List.cons_append]

theorem sign_ne_nil {bytes : Bytes} (h : bytes ≠ []) : sign negative bytes ≠ [] := by
  fun_cases sign negative bytes with
  | case1 => exact absurd rfl h
  | case2 => exact List.cons_ne_nil _ _
  | case3 => exact List.cons_ne_nil _ _
  | case4 => exact List.cons_ne_nil _ _
  | case5 => exact List.cons_ne_nil _ _

@[simp] theorem digits_zero : digits 0 = [] := by
  rw [digits, if_pos rfl]

theorem digits_of_pos (h : 0 < n) : digits n = UInt8.ofNat n :: digits (n / 256) := by
  rw [digits, if_neg (Nat.ne_of_gt h)]

theorem digits_ne_nil (h : 0 < n) : digits n ≠ [] :=
  digits_of_pos h ▸ List.cons_ne_nil _ _

/-- A number has no digit, one digit, or one below the others. -/
theorem digits_induction {motive : Nat → Prop} (zero : motive 0)
    (digit : ∀ n, 0 < n → n < 256 → motive n)
    (more : ∀ n, 256 ≤ n → 0 < n / 256 → motive (n / 256) → motive n) (n : Nat) : motive n := by
  induction n using Nat.strongRecOn with
  | ind n ih =>
    obtain rfl | hpositive := Nat.eq_zero_or_pos n
    · exact zero
    · obtain hsmall | hlarge := Nat.lt_or_ge n 256
      · exact digit n hpositive hsmall
      · exact more n hlarge (Nat.div_pos hlarge (by decide)) (ih (n / 256) (by omega))

/-! The digits with a sign, from the most significant one down: the sign is put into the last
digit, or behind it, and the other digits stay as they are. -/

theorem sign_digits_of_lt (hpositive : 0 < n) (h : n < 256) :
    sign negative (digits n) = sign negative [UInt8.ofNat n] := by
  rw [digits_of_pos hpositive, Nat.div_eq_of_lt h, digits_zero]

theorem sign_digits_of_le (h : 256 ≤ n) :
    sign negative (digits n) = UInt8.ofNat n :: sign negative (digits (n / 256)) := by
  have hquotient : 0 < n / 256 := Nat.div_pos h (by decide)
  rw [digits_of_pos (by omega), sign_cons (digits_ne_nil hquotient)]

/-- One digit with its sign takes a byte of its own for the sign from 128 on. -/
theorem sign_digit : ∀ b : UInt8, b ≠ 0 → ∀ negative : Bool,
    magnitude (sign negative [b]) = b.toNat ∧ isNegative (sign negative [b]) = negative ∧
      (sign negative [b]).length = if b.toNat < 128 then 1 else 2 := by
  decide +kernel

theorem ofNat_ne_zero (hpositive : 0 < n) (h : n < 256) : UInt8.ofNat n ≠ 0 := by
  intro hzero
  have hbyte : (UInt8.ofNat n).toNat = n := UInt8.toNat_ofNat_of_lt' h
  rw [hzero] at hbyte
  exact Nat.ne_of_gt hpositive hbyte.symm

theorem sign_digit_ofNat (hpositive : 0 < n) (h : n < 256) (negative : Bool) :
    magnitude (sign negative [UInt8.ofNat n]) = n ∧
      isNegative (sign negative [UInt8.ofNat n]) = negative ∧
      (sign negative [UInt8.ofNat n]).length = if n < 128 then 1 else 2 := by
  have hdigit := sign_digit (UInt8.ofNat n) (ofNat_ne_zero hpositive h) negative
  rwa [UInt8.toNat_ofNat_of_lt' h] at hdigit

/-- Setting the sign does not change the magnitude, whether or not it takes a byte of its own. -/
theorem magnitude_sign_digits (negative : Bool) (n : Nat) :
    magnitude (sign negative (digits n)) = n := by
  induction n using digits_induction with
  | zero =>
    rw [digits_zero]
    rfl
  | digit n hpositive h =>
    rw [sign_digits_of_lt hpositive h]
    exact (sign_digit_ofNat hpositive h negative).1
  | more n hlarge hquotient ih =>
    rw [sign_digits_of_le hlarge, magnitude_cons (sign_ne_nil (digits_ne_nil hquotient)), ih,
      UInt8.toNat_ofNat']
    omega

theorem isNegative_sign_digits (h : 0 < n) (negative : Bool) :
    isNegative (sign negative (digits n)) = negative := by
  induction n using digits_induction with
  | zero => exact absurd h (Nat.lt_irrefl 0)
  | digit n hpositive hsmall =>
    rw [sign_digits_of_lt hpositive hsmall]
    exact (sign_digit_ofNat hpositive hsmall negative).2.1
  | more n hlarge hquotient ih =>
    rw [sign_digits_of_le hlarge, isNegative_cons (sign_ne_nil (digits_ne_nil hquotient)), ih hquotient]

/-- A number with its sign takes as many bytes as are needed for one bit more than its
magnitude has. -/
theorem length_sign_digits_le_iff (negative : Bool) (size n : Nat) :
    (sign negative (digits n)).length ≤ size + 1 ↔ n < 2 ^ (8 * size + 7) := by
  induction size generalizing n with
  | zero =>
    obtain rfl | hpositive := Nat.eq_zero_or_pos n
    · exact iff_of_true (by simp [sign]) (Nat.two_pow_pos _)
    obtain hsmall | hlarge := Nat.lt_or_ge n 256
    · rw [sign_digits_of_lt hpositive hsmall, (sign_digit_ofNat hpositive hsmall negative).2.2]
      split <;> omega
    · have hquotient : 0 < n / 256 := Nat.div_pos hlarge (by decide)
      have hrest : 0 < (sign negative (digits (n / 256))).length :=
        List.length_pos_iff.2 (sign_ne_nil (digits_ne_nil hquotient))
      rw [sign_digits_of_le hlarge, List.length_cons]
      omega
  | succ size ih =>
    have hpow : 2 ^ (8 * (size + 1) + 7) = 256 * 2 ^ (8 * size + 7) := by
      rw [show 8 * (size + 1) + 7 = 8 + (8 * size + 7) by omega, Nat.pow_add]
    obtain rfl | hpositive := Nat.eq_zero_or_pos n
    · exact iff_of_true (by simp [sign]) (Nat.two_pow_pos _)
    obtain hsmall | hlarge := Nat.lt_or_ge n 256
    · have hroom : 2 ≤ 2 ^ (8 * size + 7) := Nat.le_self_pow (by omega) 2
      rw [sign_digits_of_lt hpositive hsmall, (sign_digit_ofNat hpositive hsmall negative).2.2, hpow]
      split <;> omega
    · rw [sign_digits_of_le hlarge, List.length_cons, Nat.succ_le_succ_iff, ih, hpow,
        Nat.div_lt_iff_lt_mul (by decide), Nat.mul_comm]

/-- A number is read back from its shortest form. -/
theorem value_encode (v : Int) : value (encode v) = v := by
  obtain rfl | hnonzero := eq_or_ne v 0
  · simp [encode, value, sign, isNegative, magnitude]
  · have hpositive : 0 < v.natAbs := Int.natAbs_pos.2 hnonzero
    rw [value, encode, magnitude_sign_digits, isNegative_sign_digits hpositive]
    by_cases hnegative : v < 0
    · rw [if_pos (by simpa using hnegative)]
      omega
    · rw [if_neg (by simpa using hnegative)]
      omega

/-- The bytes of the shortest form of a number. -/
theorem length_encode_le_iff (hsize : 0 < size) (v : Int) :
    (encode v).length ≤ size ↔ v.natAbs < 2 ^ (8 * size - 1) := by
  obtain ⟨size, rfl⟩ := Nat.exists_eq_add_one.2 hsize
  rw [encode, length_sign_digits_le_iff, show 8 * (size + 1) - 1 = 8 * size + 7 by omega]

theorem natAbs_value (bytes : Bytes) : (value bytes).natAbs = magnitude bytes := by
  unfold value
  split <;> omega

/-- One bit of a form is the sign. -/
theorem magnitude_lt {bytes : Bytes} (h : bytes ≠ []) : magnitude bytes < 2 ^ (8 * bytes.length - 1) := by
  induction bytes with
  | nil => exact absurd rfl h
  | cons b rest ih =>
    obtain rfl | hrest := eq_or_ne rest []
    · have hlast : ∀ last : UInt8, magnitude [last] < 2 ^ (8 * 1 - 1) := by decide +kernel
      exact hlast b
    · have hb := b.toNat_lt
      have hlength := List.length_pos_iff.2 hrest
      have hmagnitude := ih hrest
      have hpow : 2 ^ (8 * (b :: rest).length - 1) = 256 * 2 ^ (8 * rest.length - 1) := by
        rw [List.length_cons, show 8 * (rest.length + 1) - 1 = 8 + (8 * rest.length - 1) by omega,
          Nat.pow_add]
      rw [magnitude_cons hrest, hpow]
      omega

theorem decode_of_le {bytes : Bytes} (h : bytes.length ≤ size) : decode size bytes = .ok (value bytes) :=
  if_neg (Nat.not_lt.2 h)

theorem decode_of_lt {bytes : Bytes} (h : size < bytes.length) : decode size bytes = .error .unknown :=
  if_pos h

theorem decode_encode {v : Int} (hsize : 0 < size) (h : v.natAbs < 2 ^ (8 * size - 1)) :
    decode size (encode v) = .ok v := by
  rw [decode_of_le ((length_encode_le_iff hsize v).2 h), value_encode]

/-- A number is decoded from its encoding exactly if this has at most the given size. -/
theorem decode_encode_iff (hsize : 0 < size) (v : Int) :
    decode size (encode v) = .ok v ↔ v.natAbs < 2 ^ (8 * size - 1) := by
  refine ⟨fun hread => ?_, decode_encode hsize⟩
  rw [← length_encode_le_iff hsize]
  by_contra hlong
  rw [decode_of_lt (Nat.not_le.1 hlong)] at hread
  cases hread

/-- A number of at most five bytes is short enough to be pushed. -/
theorem push_encode {v : Int} (h : v.natAbs < 2 ^ 39) (stack : Stack) :
    Stack.push (encode v) stack = .done (encode v :: stack) := by
  have hsize : (encode v).length ≤ 5 := (length_encode_le_iff (by decide) v).2 h
  exact Stack.push_of_le (Nat.le_trans hsize (by decide)) stack

end SpendCheck.Number
