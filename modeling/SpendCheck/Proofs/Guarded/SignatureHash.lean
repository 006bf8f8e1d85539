import SpendCheck.Proofs.Guarded.Script
import SpendCheck.Proofs.Guarded.Signature
import SpendCheck.Proofs.Transaction.SigningCopy
import SpendCheck.Machine.Checker

namespace SpendCheck.Guarded

open Checked

/-! The transaction is copied, and the copy is changed step by step. -/

/-- Empties the unlocking scripts and puts the script code in the place of the signed one. -/
def replaceScripts (index : Nat) (code : Script) (inputs : List Input) : Checked (List Input) := do
  let blank := inputs.map fun input => { input with script := [] }
  let signed ← get blank index
  store blank index { signed with script := ← withoutSeparators code }

/-- Cuts the outputs off behind the single one that is signed, and overwrites those in
front of it. -/
def truncateOutputs (index : Nat) (outputs : List Output) : Checked (List Output) := do
  let kept := outputs.take (index + 1)
  let front ← slice kept 0 index
  return front.map (fun _ => Output.null) ++ kept.drop index

/-- Keeps the outputs that a mode signs. -/
def selectOutputs (index : Nat) (hashType : UInt32) (outputs : List Output) : Checked (List Output) :=
  if HashType.base hashType = HashType.none then return []
  else if HashType.base hashType = HashType.single then truncateOutputs index outputs
  else return outputs

/-- Zeroes the sequences of the other inputs where a mode leaves them free. -/
def freeSequences (index : Nat) (hashType : UInt32) (inputs : List Input) : List Input :=
  if HashType.freesSequences hashType then
    inputs.mapIdx fun i input => if i = index then input else { input with sequence := 0 }
  else inputs

/-- Drops the other inputs where others may add inputs of their own. -/
def selectInputs (index : Nat) (hashType : UInt32) (inputs : List Input) : Checked (List Input) := do
  if HashType.isAnyoneCanPay hashType then return [← get inputs index] else return inputs

/-- The digest that an input signs. -/
def signatureHash (tx : Transaction) (index : Nat) (code : Script) (hashType : UInt32) : Checked Bytes := do
  if tx.inputs.length ≤ index then return Transaction.oneHash
  if HashType.base hashType = HashType.single ∧ tx.outputs.length ≤ index then return Transaction.oneHash
  let replaced ← replaceScripts index code tx.inputs
  let outputs ← selectOutputs index hashType tx.outputs
  let inputs ← selectInputs index hashType (freeSequences index hashType replaced)
  let signed : Transaction := ⟨tx.version, inputs, outputs, tx.lockTime⟩
  return Hash.hash256 (signed.encode ++ Bytes.ofNatLE 4 hashType.toNat)

/-- A signature, whose last byte is the hash type, belongs to a key and to what an input
signs. -/
def accepts (tx : Transaction) (index : Nat) (sig pubkey : Bytes) (code : Script) : Checked Bool := do
  match ← parsePublicKey pubkey with
  | none => return false
  | some _ =>
    match sig.getLast? with
    | none => return false
    | some hashType =>
      let digest ← signatureHash tx index code hashType.toUInt32
      verifySignature sig.dropLast pubkey digest

variable {index : Nat} {hashType : UInt32}

/-- The signed input is there to be read and to be replaced. -/
theorem replaceScripts_eq_ok {inputs : List Input} (code : Script) (h : index < inputs.length) :
    replaceScripts index code inputs = .ok (inputs.mapIdx fun i input =>
      { input with script := if i = index then code.withoutSeparators else [] }) := by
  have hblank : index < (inputs.map fun input => { input with script := [] }).length := by
    rwa [List.length_map]
  unfold replaceScripts
  dsimp only
  rw [get_eq_ok hblank, ok_bind, withoutSeparators_eq_ok, ok_bind, store_eq_ok hblank]
  congr 1
  refine List.ext_getElem (by simp) fun i hi _ => ?_
  rw [List.getElem_set, List.getElem_mapIdx]
  by_cases hsigned : i = index
  · subst hsigned
    simp
  · simp [hsigned, Ne.symm hsigned]

/-- The outputs in front of the selected one are a slice of those that are kept. -/
theorem truncateOutputs_eq_ok {outputs : List Output} (h : index < outputs.length) :
    truncateOutputs index outputs = .ok ((outputs.take (index + 1)).mapIdx fun i output =>
      if i < index then Output.null else output) := by
  have hkept : index ≤ (outputs.take (index + 1)).length := by
    rw [List.length_take]
    omega
  unfold truncateOutputs
  dsimp only
  rw [slice_eq_ok (Nat.zero_le _) hkept, ok_bind, List.drop_zero, pure_eq_ok]
  generalize outputs.take (index + 1) = kept at hkept
  congr 1
  refine List.ext_getElem (by simp; omega) fun i hi _ => ?_
  rw [List.getElem_append, List.getElem_mapIdx]
  by_cases hfront : i < index
  · have hinside : i < ((kept.take index).map fun _ => Output.null).length := by
      rw [List.length_map, List.length_take]
      omega
    rw [dif_pos hinside, if_pos hfront, List.getElem_map]
  · have houtside : ¬i < ((kept.take index).map fun _ => Output.null).length := by
      rw [List.length_map, List.length_take]
      omega
    have hoffset : index + (i - index) = i := Nat.add_sub_of_le (Nat.not_lt.1 hfront)
    rw [dif_neg houtside, if_neg hfront]
    simp [Nat.min_eq_left hkept, hoffset]

/-- Cutting the outputs behind the signed one and blanking those before it stays inside the
list. -/
theorem selectOutputs_eq_ok {outputs : List Output}
    (h : HashType.base hashType = HashType.single → index < outputs.length) :
    selectOutputs index hashType outputs = .ok (Transaction.signedOutputs index hashType outputs) := by
  unfold selectOutputs Transaction.signedOutputs
  split
  · rfl
  · split
    · next hsingle => exact truncateOutputs_eq_ok (h hsingle)
    · rfl

/-- Keeping only the signed input does not index outside the list. -/
theorem selectInputs_eq_ok {inputs : List Input} (h : index < inputs.length) :
    selectInputs index hashType inputs =
      .ok (if HashType.isAnyoneCanPay hashType then (inputs.drop index).take 1 else inputs) := by
  unfold selectInputs
  rw [get_eq_ok h, List.drop_eq_getElem_cons h]
  split <;> rfl

/-- Each input is changed once for its script and once for its sequence, and both together blank
it. -/
theorem freeSequences_eq (inputs : List Input) (code : Script) :
    freeSequences index hashType (inputs.mapIdx fun i input =>
        { input with script := if i = index then code.withoutSeparators else [] }) =
      inputs.mapIdx (Input.blanked index code hashType) := by
  unfold freeSequences
  cases hfrees : HashType.freesSequences hashType with
  | false =>
    have hsame : (fun i (input : Input) =>
        { input with script := if i = index then code.withoutSeparators else [] }) =
        Input.blanked index code hashType := by
      funext i input
      simp [Input.blanked, hfrees]
    rw [if_neg Bool.false_ne_true, hsame]
  | true =>
    rw [if_pos rfl]
    refine List.ext_getElem (by simp) fun i hi _ => ?_
    simp only [List.getElem_mapIdx, Input.blanked, hfrees]
    by_cases hsigned : i = index <;> simp [hsigned]

/-- The digest is computed without a fault, whether or not there is something to sign. -/
theorem signatureHash_eq_ok (tx : Transaction) (index : Nat) (code : Script) (hashType : UInt32) :
    signatureHash tx index code hashType = .ok (tx.signatureHash index code hashType) := by
  unfold signatureHash Transaction.signatureHash Transaction.preimage?
  by_cases hinput : tx.inputs.length ≤ index
  · rw [if_pos hinput, if_pos hinput]
    rfl
  rw [if_neg hinput, if_neg hinput]
  by_cases houtput : HashType.base hashType = HashType.single ∧ tx.outputs.length ≤ index
  · rw [if_pos houtput, if_pos houtput]
    rfl
  have hsingle : HashType.base hashType = HashType.single → index < tx.outputs.length :=
    fun hbase => Nat.not_le.1 fun hle => houtput ⟨hbase, hle⟩
  have hinputs : index < (tx.inputs.mapIdx (Input.blanked index code hashType)).length := by
    rw [List.length_mapIdx]
    exact Nat.not_le.1 hinput
  rw [if_neg houtput, if_neg houtput, Transaction.signingCopy_eq]
  dsimp only
  rw [replaceScripts_eq_ok code (Nat.not_le.1 hinput), ok_bind, selectOutputs_eq_ok hsingle, ok_bind,
    freeSequences_eq, selectInputs_eq_ok hinputs]
  rfl

/-- The hash type is taken off only where a signature has a last byte. -/
theorem accepts_eq_ok (tx : Transaction) (index : Nat) (sig pubkey : Bytes) (code : Script) :
    accepts tx index sig pubkey code = .ok ((InputChecker.mk tx index).accepts sig pubkey code) := by
  unfold accepts InputChecker.accepts
  rw [parsePublicKey_eq_ok, ok_bind]
  cases Curve.parsePublicKey pubkey with
  | none => rfl
  | some key =>
    cases sig.getLast? with
    | none => rfl
    | some hashType =>
      dsimp only
      rw [signatureHash_eq_ok, ok_bind, verifySignature_eq_ok]

end SpendCheck.Guarded
