import SpendCheck.Proofs.Bytes.BigEndian
import SpendCheck.Signature.Negation

namespace SpendCheck

/-- The high bit is clear below 128. -/
theorem Bytes.and_0x80_eq_zero_iff (b : UInt8) : b &&& 0x80 = 0 ↔ b < 0x80 := by
  have hbyte : ∀ i : Fin 256, UInt8.ofNat i &&& 0x80 = 0 ↔ UInt8.ofNat i < 0x80 := by
    decide +kernel
  have hb := hbyte ⟨b.toNat, b.toNat_lt⟩
  rwa [UInt8.ofNat_toNat] at hb

theorem Bytes.and_0x80_bne_zero (b : UInt8) : (b &&& 0x80 != 0) = decide (0x80 ≤ b) := by
  rw [Bool.eq_iff_iff, bne_iff_ne, decide_eq_true_iff, ne_eq, and_0x80_eq_zero_iff, UInt8.not_lt]

namespace Der

/-- The bytes are those of a number in a tagged integer: there is one, the high bit of the first
one is clear, and a zero byte is in front of others only where the next one has its high bit
set. -/
def IsMinimal : Bytes → Prop
  | [] => False
  | [first] => first < 0x80
  | first :: second :: _ => first < 0x80 ∧ (first = 0 → 0x80 ≤ second)

instance : DecidablePred IsMinimal
  | [] => inferInstanceAs (Decidable False)
  | [first] => inferInstanceAs (Decidable (first < 0x80))
  | first :: second :: _ => inferInstanceAs (Decidable (first < 0x80 ∧ (first = 0 → 0x80 ≤ second)))

namespace IsMinimal

variable {body other : Bytes} {width : Nat}

theorem length_pos (h : IsMinimal body) : 0 < body.length := by
  cases body with
  | nil => cases h
  | cons first rest => exact Nat.succ_pos rest.length

/-- The sign bit is free. -/
theorem toNatBE_lt (h : IsMinimal body) : 2 * body.toNatBE < 256 ^ body.length := by
  cases body with
  | nil => cases h
  | cons first rest =>
    have hfirst : first < 0x80 := by
      cases rest with
      | nil => exact h
      | cons second rest => exact h.1
    have hdigit : first.toNat ≤ 127 := Nat.le_of_lt_succ hfirst
    have hmul := Nat.mul_le_mul_left (256 ^ rest.length) hdigit
    have hrest := Bytes.toNatBE_lt rest
    rw [Bytes.toNatBE_cons, List.length_cons, Nat.pow_succ]
    omega

/-- A byte less, and the sign bit would not be free. -/
theorem le_toNatBE (h : IsMinimal body) (hlong : 1 < body.length) :
    256 ^ (body.length - 1) ≤ 2 * body.toNatBE := by
  match body, h, hlong with
  | first :: second :: rest, h, _ =>
    rw [List.length_cons, Nat.add_sub_cancel]
    by_cases hzero : first = 0
    · have hsecond : 128 ≤ second.toNat := h.2 hzero
      have hmul := Nat.mul_le_mul_left (256 ^ rest.length) hsecond
      rw [hzero, Bytes.toNatBE_zero_cons, Bytes.toNatBE_cons, List.length_cons, Nat.pow_succ]
      omega
    · have hle := Bytes.le_toNatBE_cons hzero (second :: rest)
      omega

/-- The number decides how many bytes there are. -/
theorem length_le_iff (h : IsMinimal body) (hwidth : 0 < width) :
    body.length ≤ width ↔ 2 * body.toNatBE < 256 ^ width := by
  constructor
  · intro hle
    exact h.toNatBE_lt.trans_le (Nat.pow_le_pow_right (by decide) hle)
  · intro hlt
    by_contra hlong
    have hpow : 256 ^ width ≤ 256 ^ (body.length - 1) := Nat.pow_le_pow_right (by decide) (by omega)
    have hle := h.le_toNatBE (by omega)
    omega

/-- A number has one shortest form. -/
theorem eq_of_toNatBE_eq (h : IsMinimal body) (hother : IsMinimal other)
    (hvalue : body.toNatBE = other.toNatBE) : body = other := by
  have hle : body.length ≤ other.length :=
    (h.length_le_iff hother.length_pos).2 (hvalue ▸ hother.toNatBE_lt)
  have hge : other.length ≤ body.length :=
    (hother.length_le_iff h.length_pos).2 (hvalue ▸ h.toNatBE_lt)
  exact Bytes.eq_of_toNatBE_eq (Nat.le_antisymm hle hge) hvalue

end IsMinimal

end Der

/-! Padding is what keeps a number that is not negative from its shortest form. -/

theorem toNatBE_dropPadding (bytes : Bytes) : (dropPadding bytes).toNatBE = bytes.toNatBE := by
  fun_induction dropPadding bytes with
  | case1 first second rest h ih => rw [ih, h.1, Bytes.toNatBE_zero_cons]
  | case2 => rfl
  | case3 => rfl

/-- Dropping the padding of a number whose high bit is clear leaves its minimal form. -/
theorem isMinimal_dropPadding {first : UInt8} (h : first < 0x80) (rest : Bytes) :
    Der.IsMinimal (dropPadding (first :: rest)) := by
  induction rest generalizing first with
  | nil => exact h
  | cons second rest ih =>
    rw [dropPadding]
    split
    · next hpadding => exact ih hpadding.2
    · next hkept => exact ⟨h, fun hzero => UInt8.not_lt.1 fun hlow => hkept ⟨hzero, hlow⟩⟩

end SpendCheck
