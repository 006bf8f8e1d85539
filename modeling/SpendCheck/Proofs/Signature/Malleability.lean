import SpendCheck.Proofs.Signature.Negation
import SpendCheck.Machine.Checker

namespace SpendCheck

/-! The lax reading takes single length bytes as the strict one does. -/

namespace LaxDer

variable {body r s : Bytes}

theorem toNat_ofNat_of_lt_0x80 {size : Nat} (h : size < 0x80) : (UInt8.ofNat size).toNat = size :=
  UInt8.toNat_ofNat_of_lt' (h.trans (by decide))

theorem ofNat_lt_0x80 {size : Nat} (h : size < 0x80) : UInt8.ofNat size < 0x80 := by
  rw [UInt8.lt_iff_toNat_lt, toNat_ofNat_of_lt_0x80 h]
  exact h

theorem skipLength?_ofNat {size : Nat} (h : size < 0x80) (rest : Bytes) :
    skipLength? (UInt8.ofNat size :: rest) = some rest := by
  rw [skipLength?, if_pos (ofNat_lt_0x80 h)]

theorem readLength?_ofNat {size : Nat} (h : size < 0x80) (rest : Bytes) :
    readLength? (UInt8.ofNat size :: rest) = some (size, rest) := by
  rw [readLength?, if_pos (ofNat_lt_0x80 h), toNat_ofNat_of_lt_0x80 h]

/-- The lax reader reads a short integer as it was written. -/
theorem readInteger?_integer (h : body.length < 0x80) (rest : Bytes) :
    readInteger? (Der.integer body ++ rest) = some (body.toNatBE, rest) := by
  have hsplit : Bytes.splitAt? body.length (body ++ rest) = some (body, rest) :=
    Bytes.splitAt?_eq_some_iff.2 ⟨rfl, rfl⟩
  rw [Der.integer, List.cons_append, List.cons_append, readInteger?, readLength?_ofNat h]
  dsimp only
  rw [hsplit]
  rfl

/-- The two numbers of a sequence that is short enough for single length bytes. -/
theorem parse_sequence (h : 4 + r.length + s.length < 0x80) :
    parse (Der.sequence r s) =
      if r.toNatBE < Curve.groupOrder ∧ s.toNatBE < Curve.groupOrder then some ⟨r.toNatBE, s.toNatBE⟩
      else some ⟨0, 0⟩ := by
  have hlast := readInteger?_integer (show s.length < 0x80 by omega) []
  rw [List.append_nil] at hlast
  rw [Der.sequence, parse, skipLength?_ofNat h]
  dsimp only
  rw [readInteger?_integer (show r.length < 0x80 by omega)]
  dsimp only
  rw [hlast]

end LaxDer

/-- Of `s` and `n - s`, one is above half the order, and it is replaced by the other one. -/
theorem Curve.Signature.normalized_negative {r s : Nat} (hlt : s < groupOrder) :
    Signature.normalized ⟨r, groupOrder - s⟩ = Signature.normalized ⟨r, s⟩ := by
  have hhalf : halfOrder = (groupOrder - 1) / 2 := by decide
  have hone := le_half_iff_negative_not_le hlt
  rw [← hhalf] at hone
  unfold normalized
  by_cases hlow : s ≤ halfOrder
  · rw [if_pos (Nat.not_le.1 (hone.1 hlow)), if_neg (Nat.not_lt.2 hlow),
      Nat.sub_sub_self (Nat.le_of_lt hlt)]
  · have hnegative : groupOrder - s ≤ halfOrder := by
      by_contra hhigh
      exact hlow (hone.2 hhigh)
    rw [if_neg (Nat.not_lt.2 hnegative), if_pos (Nat.not_le.1 hlow)]

namespace StrictDer.Parts

variable (parts : Parts)

theorem dropLast_bytes : parts.bytes.dropLast = Der.sequence parts.r parts.s :=
  List.dropLast_concat

/-- The strict form is read as it is meant: its numbers become those of the signature. -/
theorem parse_dropLast_bytes : LaxDer.parse parts.bytes.dropLast =
    if parts.r.toNatBE < Curve.groupOrder ∧ parts.s.toNatBE < Curve.groupOrder then
      some ⟨parts.r.toNatBE, parts.s.toNatBE⟩
    else some ⟨0, 0⟩ := by
  have hlength := parts.length_le
  rw [dropLast_bytes, LaxDer.parse_sequence (by omega)]

/-- R may take all the room there is, so that the negated signature is longer than the strict form
allows. It is read all the same. -/
theorem parse_negated (hpositive : 0 < parts.s.toNatBE) (hlt : parts.s.toNatBE < Curve.groupOrder) :
    LaxDer.parse (Der.sequence parts.r (negatedBody parts.s)) =
      if parts.r.toNatBE < Curve.groupOrder then
        some ⟨parts.r.toNatBE, Curve.groupOrder - parts.s.toNatBE⟩
      else some ⟨0, 0⟩ := by
  have hlength := parts.length_le
  have hnegated := length_negatedBody_le hpositive hlt
  have hbelow : Curve.groupOrder - parts.s.toNatBE < Curve.groupOrder := by omega
  rw [LaxDer.parse_sequence (by omega), toNatBE_negatedBody hpositive hlt]
  simp only [hbelow, and_true]

/-- The signature with the negated S is read with the same normal form. -/
theorem normalized_parse_negated (hpositive : 0 < parts.s.toNatBE)
    (hlt : parts.s.toNatBE < Curve.groupOrder) :
    (LaxDer.parse (Der.sequence parts.r (negatedBody parts.s))).map Curve.Signature.normalized =
      (LaxDer.parse parts.bytes.dropLast).map Curve.Signature.normalized := by
  rw [parts.parse_negated hpositive hlt, parse_dropLast_bytes]
  simp only [hlt, and_true]
  split
  · exact congrArg some (Curve.Signature.normalized_negative hlt)
  · rfl

end StrictDer.Parts

/-- Verification looks at the normal form of the two numbers that are read, and at nothing else of
the signature. -/
theorem verifySignature_congr {der other : Bytes}
    (h : (LaxDer.parse der).map Curve.Signature.normalized =
      (LaxDer.parse other).map Curve.Signature.normalized) (pubkey digest : Bytes) :
    verifySignature der pubkey digest = verifySignature other pubkey digest := by
  unfold verifySignature
  cases Curve.parsePublicKey pubkey with
  | none => rfl
  | some key =>
    cases hder : LaxDer.parse der with
    | none =>
      rw [hder, Option.map_none, eq_comm, Option.map_eq_none_iff] at h
      rw [h]
    | some sig =>
      rw [hder, Option.map_some, eq_comm, Option.map_eq_some_iff] at h
      obtain ⟨sig', hother, hnormal⟩ := h
      rw [hother]
      dsimp only
      rw [hnormal]

/-- Where the last bytes are equal, so are the digests. -/
theorem InputChecker.accepts_congr {sig other : Bytes} (hlast : sig.getLast? = other.getLast?)
    (h : ∀ pubkey digest, verifySignature sig.dropLast pubkey digest =
      verifySignature other.dropLast pubkey digest)
    (checker : InputChecker) (pubkey : Bytes) (code : Script) :
    checker.accepts sig pubkey code = checker.accepts other pubkey code := by
  simp only [accepts, hlast, h]

/-- Signatures are malleable: negating S never changes the outcome of a verification. For every
signature in the strict form whose S is a number between zero and the group order, whatever the
size of R, there is a negated one. Without their hash types both are read as numbers with the same
normal form, so they verify for the same keys and digests, and every input of every transaction
accepts both or neither for every key and script code. -/
theorem negation_keeps_verdict {parts : StrictDer.Parts} (hpositive : 0 < parts.s.toNatBE)
    (hlt : parts.s.toNatBE < Curve.groupOrder) :
    ∃ negated, negateSignatureS? parts.bytes = some negated ∧
      (LaxDer.parse negated.dropLast).map Curve.Signature.normalized =
        (LaxDer.parse parts.bytes.dropLast).map Curve.Signature.normalized ∧
      (∀ pubkey digest, verifySignature negated.dropLast pubkey digest =
        verifySignature parts.bytes.dropLast pubkey digest) ∧
      ∀ (tx : Transaction) (index : Nat) (pubkey : Bytes) (code : Script),
        (InputChecker.mk tx index).accepts negated pubkey code =
          (InputChecker.mk tx index).accepts parts.bytes pubkey code := by
  have hnegate := parts.negateSignatureS?_bytes (parts.minimal_s.length_le_of_lt_groupOrder hlt)
  have hdropLast : (Der.sequence parts.r (negatedBody parts.s) ++ [parts.hashType]).dropLast =
      Der.sequence parts.r (negatedBody parts.s) :=
    List.dropLast_concat
  have hnormal := parts.normalized_parse_negated hpositive hlt
  rw [← hdropLast] at hnormal
  have hverify := verifySignature_congr hnormal
  have hlast : (Der.sequence parts.r (negatedBody parts.s) ++ [parts.hashType]).getLast? =
      parts.bytes.getLast? := by
    rw [parts.getLast?_bytes, List.getLast?_concat]
  exact ⟨_, hnegate, hnormal, hverify, fun tx index =>
    InputChecker.accepts_congr hlast hverify ⟨tx, index⟩⟩

/-- The negative of the number 1 is above half the order, so the two signatures are read as different
numbers and have the same normal form. In the longest strict signature R leaves one byte for S,
and the negative of that takes 33. What is built is not strict any more, and still every input
accepts both or neither. -/
theorem negation_of_one_keeps_verdict :
    (∃ parts : StrictDer.Parts, 0 < parts.s.toNatBE ∧ parts.s.toNatBE < Curve.groupOrder ∧
      parts.bytes = Der.sequence [5] [1] ++ [1] ∧
      ∃ negated, negateSignatureS? parts.bytes = some negated ∧
        LaxDer.parse parts.bytes.dropLast = some ⟨5, 1⟩ ∧
        LaxDer.parse negated.dropLast = some ⟨5, Curve.groupOrder - 1⟩ ∧
        (LaxDer.parse negated.dropLast).map Curve.Signature.normalized = some ⟨5, 1⟩ ∧
        ∀ pubkey digest, verifySignature negated.dropLast pubkey digest =
          verifySignature parts.bytes.dropLast pubkey digest) ∧
    ∃ parts : StrictDer.Parts, 0 < parts.s.toNatBE ∧ parts.s.toNatBE < Curve.groupOrder ∧
      parts.bytes = Der.sequence (1 :: List.replicate 64 0) [1] ++ [1] ∧ parts.bytes.length = 73 ∧
      ∃ negated, negateSignatureS? parts.bytes = some negated ∧ StrictDer.isStrict negated = false ∧
        ∀ (tx : Transaction) (index : Nat) (pubkey : Bytes) (code : Script),
          (InputChecker.mk tx index).accepts negated pubkey code =
            (InputChecker.mk tx index).accepts parts.bytes pubkey code := by
  have hpositive : 0 < Bytes.toNatBE [1] := by decide
  have hlt : Bytes.toNatBE [1] < Curve.groupOrder := by decide
  constructor
  · let parts : StrictDer.Parts := ⟨[5], [1], 1, by decide, by decide, by decide⟩
    have hread : LaxDer.parse parts.bytes.dropLast = some ⟨5, 1⟩ := by decide +kernel
    have hother : (negateSignatureS? parts.bytes).map (LaxDer.parse ·.dropLast) =
        some (some ⟨5, Curve.groupOrder - 1⟩) := by
      decide +kernel
    obtain ⟨negated, hnegate, hnormal, hverify, -⟩ :=
      @negation_keeps_verdict parts hpositive hlt
    rw [hnegate, Option.map_some, Option.some_inj] at hother
    rw [hread] at hnormal
    exact ⟨parts, hpositive, hlt, rfl, negated, hnegate, hread, hother, hnormal, hverify⟩
  · let parts : StrictDer.Parts := ⟨1 :: List.replicate 64 0, [1], 1, by decide, by decide, by decide⟩
    have hlong : (negateSignatureS? parts.bytes).map StrictDer.isStrict = some false := by
      decide +kernel
    obtain ⟨negated, hnegate, -, -, haccepts⟩ := @negation_keeps_verdict parts hpositive hlt
    rw [hnegate, Option.map_some, Option.some_inj] at hlong
    exact ⟨parts, hpositive, hlt, rfl, rfl, negated, hnegate, hlong, haccepts⟩

end SpendCheck
