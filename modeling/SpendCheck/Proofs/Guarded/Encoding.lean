import SpendCheck.Proofs.Guarded.Number
import SpendCheck.Proofs.Script.Shortest

namespace SpendCheck

namespace Guarded

open Checked

/-! Writing numbers: the word without its sign is taken apart from its lowest byte up. -/

/-- The bytes of a word up to the last one that is not zero, the lowest one first. -/
def bytesOf : (turns : Nat) → BitVec 64 → Checked Bytes
  | 0, _ => .error .endless
  | turns + 1, word => do
    if word = 0#64 then return []
    let higher ← bytesOf turns (word >>> 8)
    return UInt8.ofNat (word &&& 0xff#64).toNat :: higher

/-- The shortest form of a signed word. Without its sign it is an unsigned word, since the
least signed word has no counterpart above zero. -/
def encodeNumber (v : Int64) : Checked Bytes := do
  if v = 0 then return []
  let bytes ← bytesOf 9 v.toBitVec.abs
  match bytes.getLast? with
  | none => return bytes
  | some last =>
    if last &&& 0x80 ≠ 0 then return bytes ++ [if v < 0 then 0x80 else 0x00]
    else if v < 0 then store bytes (← difference bytes.length 1) (last ||| 0x80)
    else return bytes

theorem bytesOf_zero (turns : Nat) : bytesOf (turns + 1) 0#64 = .ok [] := rfl

/-- Shifting a word by one byte in every turn yields its digits, and the turns do not run out. -/
theorem bytesOf_eq_ok {turns : Nat} {word : BitVec 64} (h : word.toNat < 256 ^ turns) :
    bytesOf (turns + 1) word = .ok (Number.digits word.toNat) := by
  induction turns generalizing word with
  | zero =>
    obtain rfl : word = 0#64 := BitVec.eq_of_toNat_eq (Nat.lt_one_iff.1 h)
    rw [bytesOf_zero, BitVec.toNat_ofNat, Nat.zero_mod, Number.digits_zero]
  | succ turns ih =>
    by_cases hzero : word = 0#64
    · rw [hzero, bytesOf_zero, BitVec.toNat_ofNat, Nat.zero_mod, Number.digits_zero]
    · have hpositive : 0 < word.toNat := Nat.pos_of_ne_zero fun heq => hzero (BitVec.eq_of_toNat_eq heq)
      have hhigher : (word >>> 8).toNat = word.toNat / 256 := by
        rw [BitVec.toNat_ushiftRight, Nat.shiftRight_eq_div_pow]
      have hlt : (word >>> 8).toNat < 256 ^ turns := by
        rw [hhigher, Nat.div_lt_iff_lt_mul (by decide), ← Nat.pow_succ]
        exact h
      have hlowest : UInt8.ofNat (word &&& 0xff#64).toNat = UInt8.ofNat word.toNat := by
        have hmask : (word &&& 0xff#64).toNat = word.toNat % 2 ^ 8 := by
          rw [BitVec.toNat_and]
          exact Nat.and_two_pow_sub_one_eq_mod word.toNat 8
        apply UInt8.toNat_inj.1
        rw [UInt8.toNat_ofNat', UInt8.toNat_ofNat', hmask, Nat.mod_mod]
      rw [bytesOf, if_neg hzero, ih hlt, ok_bind, hlowest, hhigher, Number.digits_of_pos hpositive]
      rfl

theorem toNat_abs_toBitVec (v : Int64) : v.toBitVec.abs.toNat = v.toInt.natAbs := by
  have hword := v.toBitVec.isLt
  rw [BitVec.toNat_abs, ← Int64.toInt_toBitVec, BitVec.toInt_eq_msb_cond]
  split <;> omega

/-- Every signed word is encoded without a fault. The least one is no exception, as its
magnitude is read as an unsigned word. -/
theorem encodeNumber_eq_ok (v : Int64) : encodeNumber v = .ok (Number.encode v.toInt) := by
  have hbytes : bytesOf 9 v.toBitVec.abs = .ok (Number.digits v.toInt.natAbs) := by
    have hword : v.toBitVec.abs.toNat < 256 ^ 8 := v.toBitVec.abs.isLt
    rw [bytesOf_eq_ok hword, toNat_abs_toBitVec]
  have hnegative : v < 0 ↔ v.toInt < 0 := Int64.lt_iff_toInt_lt
  unfold encodeNumber
  by_cases hzero : v = 0
  · subst hzero
    rw [if_pos rfl]
    exact congrArg Except.ok (Number.encode_value_eq_iff.2 (.inl rfl)).symm
  simp only [if_neg hzero, hbytes, ok_bind, Number.encode, hnegative]
  obtain hnil | ⟨front, last, hdigits⟩ := List.eq_nil_or_concat (Number.digits v.toInt.natAbs)
  · rw [hnil]
    rfl
  rw [List.concat_eq_append] at hdigits
  rw [hdigits, List.getLast?_concat, Number.sign_append_singleton]
  by_cases hhigh : last &&& 0x80 ≠ 0
  · simp [hhigh, Number.sign]
  · by_cases hsign : v.toInt < 0
    · simp [hhigh, hsign, Number.sign, difference, store]
    · simp [hhigh, hsign, Number.sign]

end Guarded

namespace Number

/-- Eight bytes hold no more than a signed word. -/
theorem exists_toInt_eq_value {bytes : Bytes} (h : bytes.length ≤ 8) : ∃ v : Int64, v.toInt = value bytes := by
  have hmagnitude : magnitude bytes < 2 ^ 63 := by
    obtain rfl | hne := eq_or_ne bytes []
    · exact Nat.two_pow_pos 63
    · exact (magnitude_lt hne).trans_le (Nat.pow_le_pow_right (by decide) (by omega))
  have hvalue := natAbs_value bytes
  exact ⟨Int64.ofInt (value bytes), Int64.toInt_ofInt_of_le (by omega) (by omega)⟩

/-- Numbers are written in one way. The shortest form of a signed word has no more bytes
than are needed for its magnitude and one bit for the sign, and it is read back from this
many bytes on; four are enough up to 2 ^ 31 - 1. The least word has nine, and writing it
leaves no word's range. Every form of at most eight bytes is read as a signed word, whose
shortest form is not longer, and is the form itself just if no byte of it is there without
need. -/
theorem shortest_forms_are_canonical :
    (∀ (v : Int64) (size : Nat), 0 < size →
      ((encode v.toInt).length ≤ size ↔ v.toInt.natAbs < 2 ^ (8 * size - 1)) ∧
        (decode size (encode v.toInt) = .ok v.toInt ↔ v.toInt.natAbs < 2 ^ (8 * size - 1))) ∧
    (∀ v : Int64, decode maxSize (encode v.toInt) = .ok v.toInt ↔ v.toInt.natAbs ≤ 2 ^ 31 - 1) ∧
    (∀ v : Int64, Guarded.encodeNumber v = .ok (encode v.toInt)) ∧
    (encode Int64.minValue.toInt).length = 9 ∧
    ∀ bytes : Bytes, bytes.length ≤ 8 →
      ∃ v : Int64, decode 8 bytes = .ok v.toInt ∧ Guarded.decodeNumber 8 bytes = .ok (.ok v.toInt) ∧
        (encode v.toInt).length ≤ bytes.length ∧ (encode v.toInt = bytes ↔ IsShortest bytes) := by
  refine ⟨fun v size hsize => ⟨length_encode_le_iff hsize _, decode_encode_iff hsize _⟩, fun v => ?_,
    Guarded.encodeNumber_eq_ok, ?_, fun bytes hlength => ?_⟩
  · rw [decode_encode_iff (by decide), Nat.le_sub_one_iff_lt (Nat.two_pow_pos 31)]
    rfl
  · have hnine := length_encode_le_iff (by decide : 0 < 9) Int64.minValue.toInt
    have hmore := length_encode_le_iff (by decide : 0 < 8) Int64.minValue.toInt
    rw [Int64.toInt_minValue] at hnine hmore ⊢
    omega
  · obtain ⟨v, hv⟩ := exists_toInt_eq_value hlength
    have hread : decode 8 bytes = .ok (value bytes) := decode_of_le hlength
    refine ⟨v, ?_, ?_, ?_, ?_⟩
    · rw [hread, hv]
    · rw [Guarded.decodeNumber_eq_ok (Nat.le_refl 8), hread, hv]
    · rw [hv]
      exact length_encode_value_le bytes
    · rw [hv]
      exact encode_value_eq_iff

/-- The number after the last one of four bytes, a sign behind a byte without room for it,
and one behind a byte with room. -/
theorem sign_takes_byte_where_no_bit_is_left :
    ¬(encode (-2147483648 : Int64).toInt).length ≤ 4 ∧
    decode 5 (encode (-2147483648 : Int64).toInt) = .ok (-2147483648) ∧
    encode (-255) = [0xff, 0x80] ∧
    ∃ v : Int64, decode 8 [0x7f, 0x80] = .ok v.toInt ∧ encode v.toInt ≠ [0x7f, 0x80] := by
  obtain ⟨hwidths, -, -, -, hforms⟩ := shortest_forms_are_canonical
  have hleast : (-2147483648 : Int64).toInt = -2147483648 := by decide
  refine ⟨?_, ?_, ?_, ?_⟩
  · rw [(hwidths (-2147483648) 4 (by decide)).1, hleast]
    decide
  · rw [(hwidths (-2147483648) 5 (by decide)).2.2 (by rw [hleast]; decide), hleast]
  · obtain ⟨v, hread, -, -, hshortest⟩ := hforms [0xff, 0x80] (by decide)
    have hv : v.toInt = -255 := (Except.ok.inj hread).symm
    rw [← hv]
    exact hshortest.2 (by decide)
  · obtain ⟨v, hread, -, -, hshortest⟩ := hforms [0x7f, 0x80] (by decide)
    exact ⟨v, hread, fun hform => absurd (hshortest.1 hform) (by decide)⟩

end Number

end SpendCheck
