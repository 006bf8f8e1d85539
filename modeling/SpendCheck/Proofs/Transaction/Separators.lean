import SpendCheck.Proofs.Guarded.Script
import SpendCheck.Proofs.Transaction.Commitment

namespace SpendCheck

namespace Script

/-- The instructions of a script apart from the separators. -/
def unseparated (script : Script) : List Instruction :=
  script.instructions.filter (· != .op Opcode.codeSeparator)

/-- Two scripts are the same but for the separators between their instructions. -/
structure SameButSeparators (first second : Script) : Prop where
  instructions : first.unseparated = second.unseparated
  tail : first.tail = second.tail

variable {script first second : Script}

theorem withoutSeparators_eq (script : Script) :
    script.withoutSeparators = script.unseparated.flatMap Instruction.bytes ++ script.tail := rfl

theorem decode_withoutSeparators (script : Script) :
    decode script.withoutSeparators = (script.unseparated, script.tail) := by
  rw [withoutSeparators_eq]
  exact decode_flatMap_append_tail script fun _ hmem => (List.mem_filter.1 hmem).1

theorem unseparated_withoutSeparators (script : Script) :
    script.withoutSeparators.unseparated = script.unseparated := by
  rw [unseparated, Script.instructions, decode_withoutSeparators, unseparated, List.filter_filter]
  simp only [Bool.and_self]

/-- Scripts without their separators are equal exactly when the scripts are the same
but for these. -/
theorem withoutSeparators_eq_iff :
    first.withoutSeparators = second.withoutSeparators ↔ SameButSeparators first second := by
  constructor
  · intro h
    have hdecode := congrArg decode h
    rw [decode_withoutSeparators, decode_withoutSeparators, Prod.mk.injEq] at hdecode
    exact ⟨hdecode.1, hdecode.2⟩
  · intro h
    rw [withoutSeparators_eq, withoutSeparators_eq, h.instructions, h.tail]

theorem withoutSeparators_withoutSeparators (script : Script) :
    script.withoutSeparators.withoutSeparators = script.withoutSeparators :=
  withoutSeparators_eq_iff.2 ⟨unseparated_withoutSeparators script, by
    rw [Script.tail, decode_withoutSeparators]⟩

end Script

namespace Transaction

variable {code₁ code₂ : Script}

/-- A transaction shows the script code to what signs it without the separators only. -/
theorem signingCopy_congr (h : code₁.withoutSeparators = code₂.withoutSeparators)
    (tx : Transaction) (index : Nat) (hashType : UInt32) :
    tx.signingCopy index code₁ hashType = tx.signingCopy index code₂ hashType := by
  simp only [signingCopy, withScriptCode, h]

theorem preimage?_congr (h : code₁.withoutSeparators = code₂.withoutSeparators)
    (tx : Transaction) (index : Nat) (hashType : UInt32) :
    tx.preimage? index code₁ hashType = tx.preimage? index code₂ hashType := by
  simp only [preimage?, signingCopy_congr h]

/-- Where there is something to sign, nothing of the script code is lost but the
separators. -/
theorem withoutSeparators_eq_of_preimage? {tx : Transaction} {index : Nat} {hashType : UInt32}
    (hsign : tx.Signable index hashType) (htx : tx.Encodable) (hcode₁ : code₁.length < 2 ^ 64)
    (hcode₂ : code₂.length < 2 ^ 64)
    (h : tx.preimage? index code₁ hashType = tx.preimage? index code₂ hashType) :
    code₁.withoutSeparators = code₂.withoutSeparators := by
  rw [preimage?_of_signable code₁ hsign, preimage?_of_signable code₂ hsign, Option.some.injEq] at h
  obtain ⟨hcopy, -⟩ := encode_append_inj (signingCopy_encodable htx hcode₁)
    (signingCopy_encodable htx hcode₂) h
  exact ((signingCopy_eq_iff (.inl rfl) hsign hsign).1 hcopy).1

/-- The walk over a script code that drops the separators keeps every other instruction,
in order and byte for byte, and all of a tail that does not decode; a second walk
changes nothing. So scripts that are the same but for separators have the same
digest for every input of every transaction. Separators are all that may
differ: where an input has something to sign, what it signs tells any other
two scripts apart. -/
theorem separators_alone_not_signed :
    (∀ script : Script,
      Guarded.withoutSeparators script = .ok script.withoutSeparators ∧
      script.withoutSeparators = script.unseparated.flatMap Instruction.bytes ++ script.tail ∧
      script.withoutSeparators.instructions = script.unseparated ∧
      script.withoutSeparators.tail = script.tail ∧
      script.withoutSeparators.withoutSeparators = script.withoutSeparators) ∧
    (∀ code₁ code₂ : Script, Script.SameButSeparators code₁ code₂ →
      ∀ (tx : Transaction) (index : Nat) (hashType : UInt32),
        tx.signatureHash index code₁ hashType = tx.signatureHash index code₂ hashType) ∧
    (∀ (tx : Transaction) (index : Nat) (hashType : UInt32) (code₁ code₂ : Script),
      tx.Signable index hashType → tx.Encodable → code₁.length < 2 ^ 64 → code₂.length < 2 ^ 64 →
      tx.preimage? index code₁ hashType = tx.preimage? index code₂ hashType →
      Script.SameButSeparators code₁ code₂) := by
  refine ⟨fun script => ?_, ?_, ?_⟩
  · have hdecode := Prod.mk.inj script.decode_withoutSeparators
    exact ⟨Guarded.withoutSeparators_eq_ok script, script.withoutSeparators_eq, hdecode.1, hdecode.2,
      script.withoutSeparators_withoutSeparators⟩
  · intro code₁ code₂ h tx index hashType
    have hcode := Script.withoutSeparators_eq_iff.2 h
    simp only [signatureHash, preimage?_congr hcode]
  · intro tx index hashType code₁ code₂ hsign htx hcode₁ hcode₂ h
    exact Script.withoutSeparators_eq_iff.1
      (withoutSeparators_eq_of_preimage? hsign htx hcode₁ hcode₂ h)

/-- Separators in front of a push and behind it do not show in the digest. The same byte
stays inside of the push and in the tail, which is a push past the end. Another
number in the place of a separator does show in what is signed. -/
theorem separators_around_push_not_signed :
    Script.SameButSeparators [0xab, 0x51, 0x02, 0xab, 0xab, 0xab, 0x05, 0xab]
      [0x51, 0x02, 0xab, 0xab, 0x05, 0xab] ∧
    signatureHash ⟨1, [⟨OutPoint.null, [], 7⟩], [], 0⟩ 0
        [0xab, 0x51, 0x02, 0xab, 0xab, 0xab, 0x05, 0xab] 0x02 =
      signatureHash ⟨1, [⟨OutPoint.null, [], 7⟩], [], 0⟩ 0 [0x51, 0x02, 0xab, 0xab, 0x05, 0xab] 0x02 ∧
    preimage? ⟨1, [⟨OutPoint.null, [], 7⟩], [], 0⟩ 0 [0xab, 0x51] 0x02 ≠
      preimage? ⟨1, [⟨OutPoint.null, [], 7⟩], [], 0⟩ 0 [0x52, 0x51] 0x02 := by
  obtain ⟨-, hhidden, honly⟩ := separators_alone_not_signed
  have hsame : Script.SameButSeparators [0xab, 0x51, 0x02, 0xab, 0xab, 0xab, 0x05, 0xab]
      [0x51, 0x02, 0xab, 0xab, 0x05, 0xab] := ⟨by decide +kernel, by decide +kernel⟩
  have hother : Script.unseparated [0xab, 0x51] ≠ Script.unseparated [0x52, 0x51] := by
    decide +kernel
  refine ⟨hsame, hhidden _ _ hsame _ _ _, fun h => hother ?_⟩
  exact (honly _ _ _ _ _ (by decide) (by decide +kernel) (by decide) (by decide) h).instructions

end Transaction

end SpendCheck
