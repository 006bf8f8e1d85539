import SpendCheck.Proofs.Guarded.Negation
import SpendCheck.Proofs.Signature.Encoding

namespace SpendCheck

variable {s : Bytes}

/-- A number below the order takes a byte more than the order at most, for the sign bit. -/
theorem Der.IsMinimal.length_le_of_lt_groupOrder (h : IsMinimal s) (hlt : s.toNatBE < Curve.groupOrder) :
    s.length ≤ 33 := by
  have hwide : 2 * Curve.groupOrder < 256 ^ 33 := by decide
  exact (h.length_le_iff (by decide)).2 (by omega)

/-- The bytes in front of which the padding is dropped begin with zero. -/
theorem isMinimal_negatedBody (s : Bytes) : Der.IsMinimal (negatedBody s) :=
  isMinimal_dropPadding (by decide) _

/-- The new integer is the difference between the order and the old one, which lies below it. -/
theorem toNatBE_negatedBody (hpositive : 0 < s.toNatBE) (hlt : s.toNatBE < Curve.groupOrder) :
    (negatedBody s).toNatBE = Curve.groupOrder - s.toNatBE := by
  have horder : Curve.groupOrder < beyond32 := by decide
  have hlow : s.toNatBE % beyond32 = s.toNatBE := Nat.mod_eq_of_lt (hlt.trans horder)
  have hsum : Curve.groupOrder + (beyond32 - s.toNatBE) = Curve.groupOrder - s.toNatBE + beyond32 := by
    omega
  have hsmall : Curve.groupOrder - s.toNatBE < beyond32 := by omega
  -- what is added before the subtraction is more than 32 bytes hold, and the width drops it
  rw [negatedBody, toNatBE_dropPadding, Bytes.toNatBE_zero_cons, Bytes.toNatBE_ofNatBE, hlow, hsum,
    ← Guarded.beyond32_eq, Nat.add_mod_right, Nat.mod_eq_of_lt hsmall]

theorem length_negatedBody_le (hpositive : 0 < s.toNatBE) (hlt : s.toNatBE < Curve.groupOrder) :
    (negatedBody s).length ≤ 33 := by
  have hvalue := toNatBE_negatedBody hpositive hlt
  exact (isMinimal_negatedBody s).length_le_of_lt_groupOrder (by omega)

/-- The shortest form of a number is restored by negating twice. -/
theorem negatedBody_negatedBody (h : Der.IsMinimal s) (hpositive : 0 < s.toNatBE)
    (hlt : s.toNatBE < Curve.groupOrder) : negatedBody (negatedBody s) = s := by
  have hvalue := toNatBE_negatedBody hpositive hlt
  have hback := toNatBE_negatedBody (s := negatedBody s) (by omega) (by omega)
  -- both are shortest forms, so that their number is enough
  exact (isMinimal_negatedBody _).eq_of_toNatBE_eq h (by omega)

namespace StrictDer.Parts

variable (parts : Parts)

/-- Negation keeps all but the second integer and what tells its length. -/
theorem negateSignatureS?_bytes (h : parts.s.length ≤ 33) :
    negateSignatureS? parts.bytes =
      some (Der.sequence parts.r (negatedBody parts.s) ++ [parts.hashType]) := by
  have hsizes : componentSizes? parts.bytes = some (parts.r.length, parts.s.length) := by
    simp [componentSizes?, sizeR?_bytes, sizeS?_bytes]
  have hfront : parts.bytes.drop 4 =
      parts.r ++ ([0x02, UInt8.ofNat parts.s.length] ++ (parts.s ++ [parts.hashType])) := by
    rw [bytes_eq_layout]
    rfl
  have hr : Bytes.splitAt? parts.r.length (parts.bytes.drop 4) =
      some (parts.r, [0x02, UInt8.ofNat parts.s.length] ++ (parts.s ++ [parts.hashType])) :=
    Bytes.splitAt?_eq_some_iff.2 ⟨hfront, rfl⟩
  have hs : Bytes.splitAt? parts.s.length (parts.s ++ [parts.hashType]) = some (parts.s, [parts.hashType]) :=
    Bytes.splitAt?_eq_some_iff.2 ⟨rfl, rfl⟩
  simp [negateSignatureS?, hsizes, hr, hs, Nat.not_lt.2 h]

/-- The parts after negation, where the first integer leaves room for the second one. -/
def negated (hr : parts.r.length ≤ 33) (hpositive : 0 < parts.s.toNatBE)
    (hlt : parts.s.toNatBE < Curve.groupOrder) : Parts where
  r := parts.r
  s := negatedBody parts.s
  hashType := parts.hashType
  minimal_r := parts.minimal_r
  minimal_s := isMinimal_negatedBody parts.s
  length_le := by
    have hs := length_negatedBody_le hpositive hlt
    omega

end StrictDer.Parts

/-- Of a number and its negative, one is at most half the order, because the order is odd. -/
theorem le_half_iff_negative_not_le {value : Nat} (hlt : value < Curve.groupOrder) :
    value ≤ (Curve.groupOrder - 1) / 2 ↔ ¬Curve.groupOrder - value ≤ (Curve.groupOrder - 1) / 2 := by
  have hodd : Curve.groupOrder % 2 = 1 := by decide
  omega

/-- Negation subtracts S from the group order, byte by byte, and keeps the strict form. It does so
for every signature in that form whose R takes 33 bytes at most and whose S is a number between
zero and the order: R and the hash type stay, negating again restores every byte, and exactly one
of the two signatures passes `LOW_S`. On no byte string at all does it read outside or leave its
16-bit words. -/
theorem negation_subtracts_from_order :
    (∀ parts : StrictDer.Parts, parts.r.length ≤ 33 → 0 < parts.s.toNatBE →
      parts.s.toNatBE < Curve.groupOrder →
      ∃ negated : StrictDer.Parts, negateSignatureS? parts.bytes = some negated.bytes ∧
        StrictDer.isStrict negated.bytes = true ∧ negated.r = parts.r ∧
        negated.hashType = parts.hashType ∧
        negated.s.toNatBE = Curve.groupOrder - parts.s.toNatBE ∧
        negateSignatureS? negated.bytes = some parts.bytes ∧
        ∀ flags : Flags, flags.has .lowS = true →
          (flags.has .strictEnc = true → IsDefinedHashType parts.hashType) →
          (checkSignatureEncoding flags parts.bytes = .ok () ↔
            checkSignatureEncoding flags negated.bytes ≠ .ok ())) ∧
    ∀ sig, Guarded.negateSignatureS sig = .ok (negateSignatureS? sig) := by
  refine ⟨fun parts hr hpositive hlt => ?_, Guarded.negateSignatureS_eq_ok⟩
  have hvalue := toNatBE_negatedBody hpositive hlt
  have hback := negatedBody_negatedBody parts.minimal_s hpositive hlt
  refine ⟨parts.negated hr hpositive hlt, ?_, StrictDer.Parts.isStrict_bytes _, rfl, rfl, hvalue, ?_, ?_⟩
  · exact parts.negateSignatureS?_bytes (parts.minimal_s.length_le_of_lt_groupOrder hlt)
  · rw [StrictDer.Parts.negateSignatureS?_bytes _ (length_negatedBody_le hpositive hlt)]
    change some (Der.sequence parts.r (negatedBody (negatedBody parts.s)) ++ [parts.hashType]) = _
    rw [hback]
    rfl
  · intro flags hlow htype
    have hnegated : (parts.negated hr hpositive hlt).s.toNatBE = Curve.groupOrder - parts.s.toNatBE := hvalue
    have htypeNegated : flags.has .strictEnc = true →
        IsDefinedHashType (parts.negated hr hpositive hlt).hashType := htype
    have hhalf := le_half_iff_negative_not_le hlt
    rw [ne_eq, parts.checkSignatureEncoding_eq_ok_iff, StrictDer.Parts.checkSignatureEncoding_eq_ok_iff,
      hnegated, and_iff_left htype, and_iff_left htypeNegated]
    simp only [hlow, forall_const]
    omega

/-- The negative of one is the largest S, in 33 bytes with a zero in front. One passes `LOW_S` and
its negative does not. -/
theorem negation_of_one :
    ∃ parts negated : StrictDer.Parts, parts.bytes = [0x30, 6, 2, 1, 1, 2, 1, 1, 1] ∧
      parts.r.length ≤ 33 ∧ 0 < parts.s.toNatBE ∧ parts.s.toNatBE < Curve.groupOrder ∧
      negateSignatureS? [0x30, 6, 2, 1, 1, 2, 1, 1, 1] = some negated.bytes ∧
      negated.s.toNatBE = Curve.groupOrder - 1 ∧
      negateSignatureS? negated.bytes = some [0x30, 6, 2, 1, 1, 2, 1, 1, 1] ∧
      (Flags.mk Flag.lowS.mask).has .lowS = true ∧
      checkSignatureEncoding ⟨Flag.lowS.mask⟩ [0x30, 6, 2, 1, 1, 2, 1, 1, 1] = .ok () ∧
      checkSignatureEncoding ⟨Flag.lowS.mask⟩ negated.bytes ≠ .ok () := by
  let parts : StrictDer.Parts := ⟨[1], [1], 1, by decide, by decide, by decide⟩
  have hpositive : 0 < parts.s.toNatBE := by decide
  have hlt : parts.s.toNatBE < Curve.groupOrder := by decide
  have hlow : (Flags.mk Flag.lowS.mask).has .lowS = true := by decide
  have hpasses : checkSignatureEncoding ⟨Flag.lowS.mask⟩ parts.bytes = .ok () := by decide
  obtain ⟨negated, hnegate, -, -, -, hvalue, hback, hexactly⟩ :=
    negation_subtracts_from_order.1 parts (by decide) hpositive hlt
  have hone := hexactly ⟨Flag.lowS.mask⟩ hlow fun hstrict => absurd hstrict (by decide)
  exact ⟨parts, negated, rfl, by decide, hpositive, hlt, hnegate, hvalue, hback, hlow, hpasses,
    hone.1 hpasses⟩

end SpendCheck
