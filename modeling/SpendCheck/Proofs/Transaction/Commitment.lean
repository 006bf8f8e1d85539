import SpendCheck.Proofs.Transaction.SigningCopy

namespace SpendCheck.Transaction

/-- An input that has something to sign under a hash type: it exists, and so does
the output at its position when that one alone is signed. -/
structure Signable (tx : Transaction) (index : Nat) (hashType : UInt32) : Prop where
  input : index < tx.inputs.length
  output : HashType.base hashType = HashType.single → index < tx.outputs.length

instance (tx : Transaction) (index : Nat) (hashType : UInt32) :
    Decidable (tx.Signable index hashType) :=
  decidable_of_iff
    (index < tx.inputs.length ∧
      (HashType.base hashType = HashType.single → index < tx.outputs.length))
    ⟨fun ⟨hinput, houtput⟩ => ⟨hinput, houtput⟩, fun h => ⟨h.input, h.output⟩⟩

/-- Two inputs, each of its own transaction, agree on what a hash type selects.
Lists of outpoints and of sequences are compared as a whole, their number
included. -/
structure Agrees (hashType : UInt32) (tx₁ : Transaction) (index₁ : Nat) (tx₂ : Transaction)
    (index₂ : Nat) : Prop where
  version : tx₁.version = tx₂.version
  lockTime : tx₁.lockTime = tx₂.lockTime
  previous : tx₁.inputs[index₁]?.map Input.previous = tx₂.inputs[index₂]?.map Input.previous
  sequence : tx₁.inputs[index₁]?.map Input.sequence = tx₂.inputs[index₂]?.map Input.sequence
  inputs : HashType.isAnyoneCanPay hashType = false →
    tx₁.inputs.map Input.previous = tx₂.inputs.map Input.previous
  sequences : HashType.isAnyoneCanPay hashType = false → HashType.freesSequences hashType = false →
    tx₁.inputs.map Input.sequence = tx₂.inputs.map Input.sequence
  outputs : HashType.base hashType ≠ HashType.none → HashType.base hashType ≠ HashType.single →
    tx₁.outputs = tx₂.outputs
  output : HashType.base hashType = HashType.single → tx₁.outputs[index₁]? = tx₂.outputs[index₂]?

variable {tx₁ tx₂ : Transaction} {index₁ index₂ : Nat} {code₁ code₂ : Script}
  {hashType hashType₁ hashType₂ : UInt32}

/-- Which parts of the inputs are signed depends on two bits of the hash type. The script code
and the signed input itself always are. -/
theorem signedInputs_eq_iff {inputs₁ inputs₂ : List Input} {signed₁ signed₂ : Input}
    (hplace : HashType.isAnyoneCanPay hashType = false → index₁ = index₂)
    (h₁ : inputs₁[index₁]? = some signed₁) (h₂ : inputs₂[index₂]? = some signed₂) :
    signedInputs index₁ code₁ hashType inputs₁ = signedInputs index₂ code₂ hashType inputs₂ ↔
      code₁.withoutSeparators = code₂.withoutSeparators ∧ signed₁.previous = signed₂.previous ∧
        signed₁.sequence = signed₂.sequence ∧
        (HashType.isAnyoneCanPay hashType = false →
          inputs₁.map Input.previous = inputs₂.map Input.previous) ∧
        (HashType.isAnyoneCanPay hashType = false → HashType.freesSequences hashType = false →
          inputs₁.map Input.sequence = inputs₂.map Input.sequence) := by
  cases hpay : HashType.isAnyoneCanPay hashType with
  | true =>
    -- Each copy holds one input and nothing else, so the two positions do not show.
    rw [signedInputs_of_anyoneCanPay hpay h₁, signedInputs_of_anyoneCanPay hpay h₂]
    simp only [List.cons.injEq, Input.mk.injEq, and_true, reduceCtorEq, false_implies]
    exact and_left_comm
  | false =>
    obtain rfl := hplace hpay
    rw [signedInputs_of_kept hpay, signedInputs_of_kept hpay, Input.mapIdx_blanked_eq_iff h₁ h₂]
    simp only [true_implies]
    -- The outpoint of the signed input is one of the outpoints that are compared.
    refine and_congr_right fun _ => ⟨?_, ?_⟩
    · rintro ⟨hsequence, hprevious, hsequences⟩
      have hsigned := congrArg (·[index₁]?) hprevious
      simp only [List.getElem?_map, h₁, h₂, Option.map_some, Option.some.injEq] at hsigned
      exact ⟨hsigned, hsequence, hprevious, hsequences⟩
    · rintro ⟨_, hsequence, hprevious, hsequences⟩
      exact ⟨hsequence, hprevious, hsequences⟩

/-- All outputs are signed, or none, or the one beside the input. -/
theorem signedOutputs_eq_iff {outputs₁ outputs₂ : List Output}
    (hplace : HashType.base hashType = HashType.single → index₁ = index₂)
    (h₁ : HashType.base hashType = HashType.single → index₁ < outputs₁.length)
    (h₂ : HashType.base hashType = HashType.single → index₂ < outputs₂.length) :
    signedOutputs index₁ hashType outputs₁ = signedOutputs index₂ hashType outputs₂ ↔
      (HashType.base hashType ≠ HashType.none → HashType.base hashType ≠ HashType.single →
        outputs₁ = outputs₂) ∧
      (HashType.base hashType = HashType.single → outputs₁[index₁]? = outputs₂[index₂]?) := by
  by_cases hnone : HashType.base hashType = HashType.none
  · have hsingle : HashType.none ≠ HashType.single := by decide
    simp [signedOutputs_of_none hnone, hnone, hsingle]
  by_cases hsingle : HashType.base hashType = HashType.single
  · obtain rfl := hplace hsingle
    rw [signedOutputs_of_single hsingle (List.getElem?_eq_getElem (h₁ hsingle)),
      signedOutputs_of_single hsingle (List.getElem?_eq_getElem (h₂ hsingle))]
    simp [hsingle, h₁ hsingle, h₂ hsingle]
  · simp [signedOutputs_of_all hnone hsingle, hnone, hsingle]

/-- The signing copies of two inputs under one hash type are equal exactly when
the inputs agree on what it selects. -/
theorem signingCopy_eq_iff
    (hplace : index₁ = index₂ ∨
      HashType.isAnyoneCanPay hashType ∧ HashType.base hashType ≠ HashType.single)
    (h₁ : tx₁.Signable index₁ hashType) (h₂ : tx₂.Signable index₂ hashType) :
    tx₁.signingCopy index₁ code₁ hashType = tx₂.signingCopy index₂ code₂ hashType ↔
      code₁.withoutSeparators = code₂.withoutSeparators ∧
        Agrees hashType tx₁ index₁ tx₂ index₂ := by
  have hsigned₁ := List.getElem?_eq_getElem h₁.input
  have hsigned₂ := List.getElem?_eq_getElem h₂.input
  have hinputsPlace : HashType.isAnyoneCanPay hashType = false → index₁ = index₂ := by
    intro hkept
    exact hplace.resolve_right fun ⟨hpay, _⟩ => by simp [hkept] at hpay
  have houtputsPlace : HashType.base hashType = HashType.single → index₁ = index₂ := by
    intro hsingle
    exact hplace.resolve_right fun ⟨_, hother⟩ => hother hsingle
  rw [signingCopy_eq, signingCopy_eq, Transaction.mk.injEq,
    signedInputs_eq_iff hinputsPlace hsigned₁ hsigned₂,
    signedOutputs_eq_iff houtputsPlace h₁.output h₂.output]
  constructor
  · rintro ⟨hversion, ⟨hcode, hprevious, hsequence, hinputs, hsequences⟩, ⟨houtputs, houtput⟩,
      hlockTime⟩
    exact ⟨hcode, hversion, hlockTime, by simp [hsigned₁, hsigned₂, hprevious],
      by simp [hsigned₁, hsigned₂, hsequence], hinputs, hsequences, houtputs, houtput⟩
  · rintro ⟨hcode, h⟩
    have hprevious := h.previous
    have hsequence := h.sequence
    simp only [hsigned₁, hsigned₂, Option.map_some, Option.some.injEq] at hprevious hsequence
    exact ⟨h.version, ⟨hcode, hprevious, hsequence, h.inputs, h.sequences⟩, ⟨h.outputs, h.output⟩,
      h.lockTime⟩

/-- Where there is something to sign, the digest is taken of the signing copy and the hash type. -/
theorem preimage?_of_signable {tx : Transaction} {index : Nat} (code : Script)
    (h : tx.Signable index hashType) :
    tx.preimage? index code hashType =
      some ((tx.signingCopy index code hashType).encode ++ Bytes.ofNatLE 4 hashType.toNat) := by
  have hoverrun : ¬(HashType.base hashType = HashType.single ∧ tx.outputs.length ≤ index) :=
    fun ⟨hsingle, hle⟩ => Nat.not_le.2 (h.output hsingle) hle
  rw [preimage?, if_neg (Nat.not_le.2 h.input), if_neg hoverrun]

/-- What an input signs commits to exactly the fields that the hash type selects:
to the hash type, to the script code without its separators and to the fields in
`Agrees`. The two inputs stand at the same position; where others may add inputs
and no single output is signed, they may stand anywhere, so the position itself
is not signed there. -/
theorem signatureHash_commits
    (hplace : index₁ = index₂ ∨
      HashType.isAnyoneCanPay hashType₁ ∧ HashType.base hashType₁ ≠ HashType.single)
    (hsign₁ : tx₁.Signable index₁ hashType₁) (hsign₂ : tx₂.Signable index₂ hashType₂)
    (h₁ : tx₁.Encodable) (h₂ : tx₂.Encodable)
    (hcode₁ : code₁.length < 2 ^ 64) (hcode₂ : code₂.length < 2 ^ 64) :
    ∃ preimage₁ preimage₂,
      tx₁.preimage? index₁ code₁ hashType₁ = some preimage₁ ∧
      tx₂.preimage? index₂ code₂ hashType₂ = some preimage₂ ∧
      tx₁.signatureHash index₁ code₁ hashType₁ = Hash.hash256 preimage₁ ∧
      tx₂.signatureHash index₂ code₂ hashType₂ = Hash.hash256 preimage₂ ∧
      (preimage₁ = preimage₂ ↔
        hashType₁ = hashType₂ ∧ code₁.withoutSeparators = code₂.withoutSeparators ∧
          Agrees hashType₁ tx₁ index₁ tx₂ index₂) := by
  have hpreimage₁ := preimage?_of_signable code₁ hsign₁
  have hpreimage₂ := preimage?_of_signable code₂ hsign₂
  refine ⟨_, _, hpreimage₁, hpreimage₂, by rw [signatureHash, hpreimage₁],
    by rw [signatureHash, hpreimage₂], ?_⟩
  constructor
  · intro heq
    obtain ⟨hcopy, hsuffix⟩ := encode_append_inj (signingCopy_encodable h₁ hcode₁)
      (signingCopy_encodable h₂ hcode₂) heq
    obtain rfl := Wire.ofNatLE_toNat_inj hsuffix
    exact ⟨rfl, (signingCopy_eq_iff hplace hsign₁ hsign₂).1 hcopy⟩
  · rintro ⟨rfl, hagree⟩
    rw [(signingCopy_eq_iff hplace hsign₁ hsign₂).2 hagree]

/-- The second of two inputs signs what it would sign alone, and separators in
the script code do not matter. -/
theorem signatureHash_commits_anywhere :
    ∃ both alone : Transaction, ∃ preimage,
      both.inputs.length = 2 ∧ alone.inputs.length = 1 ∧
      both.preimage? 1 [0xab, 0x51] 0x81 = some preimage ∧
      alone.preimage? 0 [0x51] 0x81 = some preimage ∧
      both.signatureHash 1 [0xab, 0x51] 0x81 = Hash.hash256 preimage := by
  let other : Input := ⟨OutPoint.null, [0x51], 7⟩
  let signed : Input := ⟨⟨List.replicate 32 1, 0, rfl⟩, [0x52], 9⟩
  let both : Transaction := ⟨1, [other, signed], [⟨5, [0x51]⟩], 0⟩
  let alone : Transaction := ⟨1, [{ signed with script := [] }], [⟨5, [0x51]⟩], 0⟩
  obtain ⟨preimage₁, preimage₂, hboth, halone, hhash, _, hiff⟩ :=
    @signatureHash_commits both alone 1 0 [0xab, 0x51] [0x51] 0x81 0x81 (.inr (by decide))
      (by decide) (by decide) (by decide) (by decide) (by decide) (by decide)
  have hsame : preimage₁ = preimage₂ := hiff.2
    ⟨rfl, by decide +kernel, rfl, rfl, rfl, rfl, by decide, by decide, fun _ _ => rfl, by decide⟩
  exact ⟨both, alone, preimage₁, rfl, rfl, hboth, hsame ▸ halone, hhash⟩

end SpendCheck.Transaction
