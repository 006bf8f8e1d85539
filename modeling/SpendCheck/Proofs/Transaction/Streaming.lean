import Mathlib.Data.List.Basic
import SpendCheck.Proofs.Transaction.Commitment

namespace SpendCheck

/-- Only one item has a given position. -/
theorem zipIdx_filter_eq_singleton {α : Type} {items : List α} {index : Nat} {item : α}
    (h : items[index]? = some item) (start : Nat) :
    (items.zipIdx start).filter (fun placed => placed.2 = start + index) = [(item, start + index)] := by
  induction items generalizing start index with
  | nil => cases h
  | cons first rest ih =>
    rw [List.zipIdx_cons]
    cases index with
    | zero =>
      cases h
      rw [List.filter_cons_of_pos (by simp)]
      congr 1
      refine List.filter_eq_nil_iff.2 fun placed hmem => ?_
      have hlater := List.le_snd_of_mem_zipIdx hmem
      simp only [decide_eq_true_eq]
      omega
    | succ index =>
      rw [List.getElem?_cons_succ] at h
      rw [List.filter_cons_of_neg (by simp), ← Nat.add_assoc, Nat.add_right_comm]
      exact ih h (start + 1)

namespace Transaction

open Wire

/-! What an input signs, written in one pass over the transaction: every field is decided
where it is written, and no copy is made. -/

/-- The inputs that are written, with their positions. -/
def streamedInputs (tx : Transaction) (index : Nat) (hashType : UInt32) : List (Input × Nat) :=
  tx.inputs.zipIdx.filter fun placed => !HashType.isAnyoneCanPay hashType || placed.2 = index

/-- The script code as it is written: the instructions that are no separators, and what is
left behind the last instruction. -/
def streamedCode (code : Script) : Bytes :=
  (code.instructions.filter fun instruction => instruction ≠ .op Opcode.codeSeparator).flatMap
    Instruction.bytes ++ code.tail

/-- Writes an input at a position. -/
def streamInput (index : Nat) (code : Script) (hashType : UInt32) (placed : Input × Nat) : Bytes :=
  placed.1.previous.txid ++ Bytes.ofNatLE 4 placed.1.previous.vout.toNat ++
    (if placed.2 = index then sized (streamedCode code) else [0x00]) ++
    Bytes.ofNatLE 4
      (if placed.2 ≠ index ∧ HashType.freesSequences hashType then 0 else placed.1.sequence.toNat)

/-- How many outputs are written. -/
def streamedOutputCount (tx : Transaction) (index : Nat) (hashType : UInt32) : Nat :=
  if HashType.base hashType = HashType.none then 0
  else if HashType.base hashType = HashType.single then index + 1
  else tx.outputs.length

/-- Writes an output at a position. -/
def streamOutput (index : Nat) (hashType : UInt32) (placed : Output × Nat) : Bytes :=
  if HashType.base hashType = HashType.single ∧ placed.2 ≠ index then
    Bytes.ofNatLE 8 (-1 : Int64).toUInt64.toNat ++ [0x00]
  else
    Bytes.ofNatLE 8 placed.1.value.toUInt64.toNat ++ sized placed.1.script

/-- Writes what an input signs. -/
def stream (tx : Transaction) (index : Nat) (code : Script) (hashType : UInt32) : Bytes :=
  Bytes.ofNatLE 4 tx.version.toNat ++
    compactSize (if HashType.isAnyoneCanPay hashType then 1 else tx.inputs.length) ++
    (tx.streamedInputs index hashType).flatMap (streamInput index code hashType) ++
    compactSize (tx.streamedOutputCount index hashType) ++
    (tx.outputs.take (tx.streamedOutputCount index hashType)).zipIdx.flatMap
      (streamOutput index hashType) ++
    Bytes.ofNatLE 4 tx.lockTime.toNat ++ Bytes.ofNatLE 4 hashType.toNat

variable {tx : Transaction} {index : Nat} {code : Script} {hashType : UInt32}

/-- Deleting the separators leaves what the one pass writes. -/
theorem withoutSeparators_eq_streamedCode (code : Script) :
    code.withoutSeparators = streamedCode code := by
  have hkept : (· != .op Opcode.codeSeparator) =
      fun instruction : Instruction => decide (instruction ≠ .op Opcode.codeSeparator) :=
    funext fun _ => (decide_not.trans (congrArg _ (Bool.beq_eq_decide_eq _ _).symm)).symm
  rw [Script.withoutSeparators, hkept, streamedCode]

/-- An input of the signing copy is written as its position says. -/
theorem encode_blanked (input : Input) (position : Nat) :
    (input.blanked index code hashType position).encode =
      streamInput index code hashType (input, position) := by
  have hempty : sized [] = [0x00] := by decide
  simp only [Input.encode, Input.blanked, streamInput]
  by_cases hposition : position = index
  · simp [hposition, withoutSeparators_eq_streamedCode]
  · cases HashType.freesSequences hashType <;> simp [hposition, hempty]

/-- The inputs of the signing copy are written in one pass, where each is decided by its
position. -/
theorem counted_signedInputs (hindex : index < tx.inputs.length) :
    counted Input.encode (signedInputs index code hashType tx.inputs) =
      compactSize (if HashType.isAnyoneCanPay hashType then 1 else tx.inputs.length) ++
        (tx.streamedInputs index hashType).flatMap (streamInput index code hashType) := by
  unfold streamedInputs
  cases hpay : HashType.isAnyoneCanPay hashType with
  | true =>
    have hsigned := List.getElem?_eq_getElem hindex
    have honly := zipIdx_filter_eq_singleton hsigned 0
    rw [Nat.zero_add] at honly
    simp only [Bool.not_true, Bool.false_or] at honly ⊢
    have hself : tx.inputs[index].blanked index code hashType index =
        ⟨tx.inputs[index].previous, code.withoutSeparators, tx.inputs[index].sequence⟩ :=
      Input.blanked_self
    rw [signedInputs_of_anyoneCanPay hpay hsigned, honly, ← hself]
    simp only [counted, List.flatMap_cons, List.flatMap_nil, encode_blanked]
    rfl
  | false =>
    have hevery : tx.inputs.zipIdx.filter (fun placed => !false || placed.2 = index) =
        tx.inputs.zipIdx :=
      List.filter_eq_self.2 fun _ _ => rfl
    rw [signedInputs_of_kept hpay, hevery]
    simp [counted, List.mapIdx_eq_zipIdx_map, List.flatMap_map, encode_blanked]

theorem encode_eq_streamOutput {output : Output} {position : Nat}
    (hselected : HashType.base hashType = HashType.single → position = index) :
    output.encode = streamOutput index hashType (output, position) := by
  rw [streamOutput, if_neg fun hhidden => hhidden.2 (hselected hhidden.1)]
  rfl

theorem encode_null_eq_streamOutput {output : Output} {position : Nat}
    (hsingle : HashType.base hashType = HashType.single) (hother : position ≠ index) :
    Output.null.encode = streamOutput index hashType (output, position) := by
  have hempty : sized [] = [0x00] := by decide
  rw [streamOutput, if_pos ⟨hsingle, hother⟩, Output.encode, Output.null, hempty]

/-- The outputs of the signing copy are written in one pass, the placeholders included. -/
theorem counted_signedOutputs
    (hindex : HashType.base hashType = HashType.single → index < tx.outputs.length) :
    counted Output.encode (signedOutputs index hashType tx.outputs) =
      compactSize (tx.streamedOutputCount index hashType) ++
        (tx.outputs.take (tx.streamedOutputCount index hashType)).zipIdx.flatMap
          (streamOutput index hashType) := by
  unfold streamedOutputCount
  by_cases hnone : HashType.base hashType = HashType.none
  · rw [signedOutputs_of_none hnone, if_pos hnone]
    rfl
  · rw [if_neg hnone]
    by_cases hsingle : HashType.base hashType = HashType.single
    · have hlength : (tx.outputs.take (index + 1)).length = index + 1 :=
        List.length_take_of_le (hindex hsingle)
      rw [signedOutputs, if_neg hnone, if_pos hsingle, if_pos hsingle, counted, List.length_mapIdx,
        hlength, List.mapIdx_eq_zipIdx_map, List.flatMap_map]
      congr 1
      refine List.flatMap_congr fun placed hmem => ?_
      obtain ⟨output, position⟩ := placed
      have hlt : position < (tx.outputs.take (index + 1)).length := by
        simpa using List.snd_lt_add_of_mem_zipIdx hmem
      rw [hlength] at hlt
      by_cases hbefore : position < index
      · simp only [if_pos hbefore]
        exact encode_null_eq_streamOutput hsingle (Nat.ne_of_lt hbefore)
      · simp only [if_neg hbefore]
        exact encode_eq_streamOutput fun _ => by omega
    · rw [signedOutputs_of_all hnone hsingle, if_neg hsingle, List.take_length, counted]
      have hplaces : tx.outputs.flatMap Output.encode =
          tx.outputs.zipIdx.flatMap fun placed => placed.1.encode := by
        rw [← List.flatMap_map Prod.fst Output.encode, List.zipIdx_map_fst]
      rw [hplaces]
      congr 1
      exact List.flatMap_congr fun placed _ => encode_eq_streamOutput fun h => absurd h hsingle

theorem encode_signingCopy (h : tx.Signable index hashType) :
    (tx.signingCopy index code hashType).encode ++ Bytes.ofNatLE 4 hashType.toNat =
      tx.stream index code hashType := by
  rw [signingCopy_eq, encode, counted_signedInputs h.input, counted_signedOutputs h.output, stream]
  simp only [List.append_assoc]

/-- What an input signs is what one pass over the transaction writes, without a copy that
is changed step by step. This is so in every mode and at every position where there is
something to sign; elsewhere the digest is the number 1. -/
theorem signatureHash_streams (tx : Transaction) (index : Nat) (code : Script) (hashType : UInt32) :
    tx.preimage? index code hashType =
        (if tx.Signable index hashType then some (tx.stream index code hashType) else none) ∧
      tx.signatureHash index code hashType =
        if tx.Signable index hashType then Hash.hash256 (tx.stream index code hashType)
        else oneHash := by
  have hpreimage : tx.preimage? index code hashType =
      if tx.Signable index hashType then some (tx.stream index code hashType) else none := by
    split
    · next hsignable => rw [preimage?_of_signable code hsignable, encode_signingCopy hsignable]
    · next hnothing =>
      unfold preimage?
      split
      · rfl
      · next hinput =>
        split
        · rfl
        · next houtput =>
          refine absurd ⟨Nat.not_le.1 hinput, fun hsingle => ?_⟩ hnothing
          exact Nat.not_le.1 fun hle => houtput ⟨hsingle, hle⟩
  refine ⟨hpreimage, ?_⟩
  rw [signatureHash, hpreimage]
  by_cases hsignable : tx.Signable index hashType
  · rw [if_pos hsignable, if_pos hsignable]
  · rw [if_neg hsignable, if_neg hsignable]

end Transaction

end SpendCheck
