import Mathlib.Tactic.Ring
import SpendCheck.Proofs.Guarded.Access
import SpendCheck.Proofs.Script.Number

namespace SpendCheck.Guarded

open Checked

/-! Reading numbers: every shift has to stay within the word. -/

/-- Gathers bytes into a word, each at its position. -/
def gather : List (UInt8 × Nat) → BitVec 64 → Checked (BitVec 64)
  | [], word => return word
  | (b, position) :: rest, word => do
    let shifted ← shiftLeft (BitVec.ofNat 64 b.toNat) (8 * position)
    gather rest (word ||| shifted)

/-- The word whose base-256 digits are the bytes, least significant first. -/
def wordLE (bytes : Bytes) : Checked (BitVec 64) :=
  gather bytes.zipIdx 0

/-- A byte is set in a word above the bytes that are there already, so that nothing overlaps and
setting it adds it. -/
theorem or_shiftLeft_eq {n position : Nat} (b : UInt8) (hn : n < 256 ^ position) (hposition : position < 8) :
    BitVec.ofNat 64 n ||| (BitVec.ofNat 64 b.toNat) <<< (8 * position) =
      BitVec.ofNat 64 (n + 256 ^ position * b.toNat) := by
  have hpow : (256 : Nat) ^ position = 2 ^ (8 * position) := by
    rw [Nat.pow_mul]
  rw [hpow] at hn ⊢
  have hb := b.toNat_lt
  have hword : 2 ^ (8 * position) * 2 ^ 8 ≤ 2 ^ 64 := by
    rw [← Nat.pow_add]
    exact Nat.pow_le_pow_right (by decide) (by omega)
  have hor := Nat.shiftLeft_add_eq_or_of_lt hn b.toNat
  rw [Nat.shiftLeft_eq] at hor
  have hshifted : (BitVec.ofNat 64 b.toNat) <<< (8 * position) =
      BitVec.ofNat 64 (b.toNat * 2 ^ (8 * position)) := by
    apply BitVec.eq_of_toNat_eq
    simp [Nat.shiftLeft_eq]
  rw [hshifted, BitVec.or_comm, Nat.add_comm, Nat.mul_comm (2 ^ (8 * position)), hor]
  apply BitVec.eq_of_toNat_eq
  simp only [BitVec.toNat_or, BitVec.toNat_ofNat]
  rw [Nat.or_mod_two_pow]

/-- Up to eight bytes are gathered in a word without a shift that leaves it. -/
theorem gather_eq_ok {bytes : Bytes} {n position : Nat} (hn : n < 256 ^ position)
    (hlength : position + bytes.length ≤ 8) :
    gather (bytes.zipIdx position) (BitVec.ofNat 64 n) =
      .ok (BitVec.ofNat 64 (n + 256 ^ position * Bytes.toNatLE bytes)) := by
  induction bytes generalizing n position with
  | nil => simp [gather, Bytes.toNatLE]
  | cons b rest ih =>
    rw [List.length_cons] at hlength
    have hb := b.toNat_lt
    have hnext : n + 256 ^ position * b.toNat < 256 ^ (position + 1) := by
      have hdigit : 256 ^ position * b.toNat ≤ 256 ^ position * 255 :=
        Nat.mul_le_mul_left _ (by omega)
      rw [Nat.pow_succ]
      omega
    rw [List.zipIdx_cons, gather, shiftLeft_eq_ok (by omega), ok_bind,
      or_shiftLeft_eq b hn (by omega), ih hnext (by omega)]
    congr 2
    rw [Bytes.toNatLE]
    ring

theorem wordLE_eq_ok {bytes : Bytes} (h : bytes.length ≤ 8) :
    wordLE bytes = .ok (BitVec.ofNat 64 (Bytes.toNatLE bytes)) := by
  have hgather := @gather_eq_ok bytes 0 0 (by decide) (by omega)
  rw [Nat.pow_zero, Nat.one_mul, Nat.zero_add] at hgather
  exact hgather

/-- Reads an operand of at most `maxSize` bytes. The sign bit is masked out before the
number is negated. -/
def decodeNumber (maxSize : Nat) (bytes : Bytes) : Checked (Except ScriptError Int) := do
  if maxSize < bytes.length then return .error .unknown
  match bytes.getLast? with
  | none => return .ok 0
  | some last =>
    let result ← wordLE bytes
    if last &&& 0x80 ≠ 0 then
      let mask := ~~~(← shiftLeft 0x80#64 (8 * (← difference bytes.length 1)))
      let negated ← int64 (-(result &&& mask).toInt)
      return .ok negated
    else return .ok result.toInt

/-- The sign bit is the highest one, above the magnitude. -/
theorem toNatLE_eq_magnitude (last : UInt8) (front : Bytes) :
    Bytes.toNatLE (front ++ [last]) = Number.magnitude (front ++ [last]) +
      if last &&& 0x80 ≠ 0 then 2 ^ (8 * front.length + 7) else 0 := by
  induction front with
  | nil =>
    have hbyte : ∀ i : Fin 256, (UInt8.ofNat i).toNat = (UInt8.ofNat i &&& 0x7f).toNat +
        if UInt8.ofNat i &&& 0x80 ≠ 0 then 2 ^ 7 else 0 := by
      decide +kernel
    have hlast := hbyte ⟨last.toNat, last.toNat_lt⟩
    rw [UInt8.ofNat_toNat] at hlast
    simpa [Bytes.toNatLE, Number.magnitude] using hlast
  | cons b front ih =>
    have hpow : 2 ^ (8 * (b :: front).length + 7) = 256 * 2 ^ (8 * front.length + 7) := by
      rw [List.length_cons]
      ring
    have hrest : front ++ [last] ≠ [] := List.append_ne_nil_of_right_ne_nil front (List.cons_ne_nil last [])
    rw [List.cons_append, Bytes.toNatLE, Number.magnitude_cons hrest, hpow, ih]
    split <;> omega

/-- Masking the sign bit out leaves the magnitude. -/
theorem ofNat_and_not_twoPow {magnitude sign : Nat} (h : magnitude < 2 ^ sign) :
    BitVec.ofNat 64 (magnitude + 2 ^ sign) &&& ~~~(BitVec.ofNat 64 (2 ^ sign)) =
      BitVec.ofNat 64 magnitude := by
  have hor : magnitude + 2 ^ sign = 2 ^ sign ||| magnitude := by
    rw [Nat.add_comm, ← Nat.mul_one (2 ^ sign), Nat.two_pow_add_eq_or_of_lt h]
  apply BitVec.eq_of_getLsbD_eq
  intro i hi
  rw [hor]
  simp only [BitVec.getLsbD_and, BitVec.getLsbD_not, BitVec.getLsbD_ofNat, Nat.testBit_or,
    Nat.testBit_two_pow, hi, decide_true, Bool.true_and]
  by_cases hsign : sign = i
  · subst hsign
    simp [Nat.testBit_lt_two_pow h]
  · simp [hsign]

theorem toInt_ofNat_of_lt {n : Nat} (h : n < 2 ^ 63) : (BitVec.ofNat 64 n).toInt = n := by
  rw [BitVec.toInt_eq_toNat_of_lt]
  · simp only [BitVec.toNat_ofNat]
    omega
  · simp only [BitVec.toNat_ofNat]
    omega

/-- Up to eight bytes are decoded without a fault. The sign bit is masked out first, and what is
left can be negated within a signed word. -/
theorem decodeNumber_eq_ok {maxSize : Nat} (hmax : maxSize ≤ 8) (bytes : Bytes) :
    decodeNumber maxSize bytes = .ok (Number.decode maxSize bytes) := by
  unfold decodeNumber Number.decode
  by_cases hlong : maxSize < bytes.length
  · simp [hlong]
  simp only [if_neg hlong]
  obtain rfl | ⟨front, last, rfl⟩ := List.eq_nil_or_concat bytes
  · rfl
  rw [List.concat_eq_append] at hlong ⊢
  have hlength : front.length + 1 ≤ 8 := by
    rw [List.length_append, List.length_singleton] at hlong
    omega
  have hword : wordLE (front ++ [last]) = .ok (BitVec.ofNat 64 (Bytes.toNatLE (front ++ [last]))) :=
    wordLE_eq_ok (by simpa using hlength)
  have hsum := toNatLE_eq_magnitude last front
  have hne : front ++ [last] ≠ [] := List.append_ne_nil_of_right_ne_nil front (List.cons_ne_nil last [])
  have hlt : Number.magnitude (front ++ [last]) < 2 ^ (8 * front.length + 7) := by
    simpa [Nat.mul_add] using Number.magnitude_lt hne
  have hhalf : 2 ^ (8 * front.length + 7) ≤ 2 ^ 63 :=
    Nat.pow_le_pow_right (by decide) (by omega)
  have hmagnitude : Number.magnitude (front ++ [last]) < 2 ^ 63 := by omega
  have hlast : (front ++ [last]).getLast? = some last := List.getLast?_concat
  simp only [hword, hsum, hlast, ok_bind, Number.value, Number.isNegative, Option.any_some]
  by_cases hsign : last &&& 0x80 = 0
  · simp [hsign, toInt_ofNat_of_lt hmagnitude]
  · have hone : difference (front ++ [last]).length 1 = .ok front.length := by
      rw [difference_length_append (by simp)]
      rfl
    have hshift : (0x80#64) <<< (8 * front.length) = BitVec.ofNat 64 (2 ^ (8 * front.length + 7)) := by
      apply BitVec.eq_of_toNat_eq
      simp [Nat.shiftLeft_eq, Nat.pow_add, Nat.mul_comm]
    have hnegated : int64 (-(Number.magnitude (front ++ [last]) : Int)) =
        .ok (-(Number.magnitude (front ++ [last]) : Int)) :=
      int64_eq_ok (by omega) (by omega)
    simp only [ne_eq, hsign, not_false_eq_true, if_true, hone, ok_bind, shiftLeft_eq_ok
      (show 8 * front.length < 64 by omega), hshift, ofNat_and_not_twoPow hlt,
      toInt_ofNat_of_lt hmagnitude, hnegated, bne_iff_ne]
    rfl

/-! Truth values: the last position is one less than the length. -/

/-- Looks for a byte that is not zero in bytes with their positions, out of `size` ones. -/
def truthyAmong (size : Nat) : List (UInt8 × Nat) → Checked Bool
  | [] => return false
  | (b, position) :: rest => do
    if b ≠ 0 then
      let last ← difference size 1
      return !(position == last && b == 0x80)
    else truthyAmong size rest

/-- Whether an element is true. -/
def truthy (element : Bytes) : Checked Bool :=
  truthyAmong element.length element.zipIdx

/-- The first byte that is not zero decides, and for a sign alone it also matters whether it is
the last one. -/
theorem truthyAmong_eq_ok (element : Bytes) (start : Nat) :
    truthyAmong (start + element.length) (element.zipIdx start) = .ok (Number.truthy element) := by
  induction element generalizing start with
  | nil => rfl
  | cons b rest ih =>
    have hlast : difference (start + (b :: rest).length) 1 = .ok (start + rest.length) := by
      rw [List.length_cons, difference_eq_ok (by omega)]
      rfl
    have hrest := ih (start + 1)
    rw [Nat.add_right_comm, Nat.add_assoc] at hrest
    rw [List.zipIdx_cons, truthyAmong]
    by_cases hzero : b = 0
    · simp only [hzero, ne_eq, not_true_eq_false, if_false]
      cases rest with
      | nil => rfl
      | cons c rest => exact hrest
    · have hfirst : (b != 0) = true := bne_iff_ne.2 hzero
      simp only [ne_eq, hzero, not_false_eq_true, if_true, hlast, ok_bind]
      cases rest with
      | nil => simp [Number.truthy, hzero, bne]
      | cons c rest => simp [Number.truthy, hfirst]

theorem truthy_eq_ok (element : Bytes) : truthy element = .ok (Number.truthy element) := by
  have htruthy := truthyAmong_eq_ok element 0
  rw [Nat.zero_add] at htruthy
  exact htruthy

end SpendCheck.Guarded
