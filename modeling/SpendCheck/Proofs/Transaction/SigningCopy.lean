import Mathlib.Data.List.Flatten
import SpendCheck.Proofs.Transaction.Codec
import SpendCheck.Transaction.SignatureHash

namespace SpendCheck

theorem Script.length_withoutSeparators_le (code : Script) :
    code.withoutSeparators.length ≤ code.length := by
  have hkept : (((instructions code).filter (· != .op Opcode.codeSeparator)).flatMap
      Instruction.bytes).Sublist ((instructions code).flatMap Instruction.bytes) :=
    List.filter_sublist.flatMap Instruction.bytes
  have hsublist := hkept.append_right (tail code)
  rw [flatMap_instructions_append_tail] at hsublist
  exact hsublist.length_le

/-- An update that leaves a field alone leaves the list of these fields alone. -/
theorem map_mapIdx_of_eq {α β γ : Type} {field : β → γ} {original : α → γ} {update : Nat → α → β}
    {items : List α} (h : ∀ i a, field (update i a) = original a) :
    (items.mapIdx update).map field = items.map original := by
  refine List.ext_getElem? fun i => ?_
  simp only [List.getElem?_map, List.getElem?_mapIdx, Option.map_map, Function.comp_def, h]

namespace Input

variable {index i : Nat} {code code₁ code₂ : Script} {hashType : UInt32}
  {input : Input} {inputs inputs₁ inputs₂ : List Input}

/-- An input as the signing copy shows it: the script code or nothing stands in
for its script, and its sequence is zero where the mode frees it. -/
def blanked (index : Nat) (code : Script) (hashType : UInt32) (i : Nat) (input : Input) : Input where
  previous := input.previous
  script := if i = index then code.withoutSeparators else []
  sequence := if HashType.freesSequences hashType ∧ i ≠ index then 0 else input.sequence

theorem blanked_self :
    input.blanked index code hashType index =
      ⟨input.previous, code.withoutSeparators, input.sequence⟩ := by
  simp [blanked]

theorem blanked_eq_iff_of_ne {a b : Input} (h : i ≠ index) :
    a.blanked index code₁ hashType i = b.blanked index code₂ hashType i ↔
      a.previous = b.previous ∧
        (HashType.freesSequences hashType = false → a.sequence = b.sequence) := by
  cases hfrees : HashType.freesSequences hashType <;> simp [blanked, h, hfrees]

theorem blanked_encodable (hcode : code.length < 2 ^ 64) :
    (input.blanked index code hashType i).Encodable := by
  have hle := code.length_withoutSeparators_le
  simp only [Encodable, blanked]
  split
  · omega
  · exact Nat.two_pow_pos 64

theorem map_previous_blanked :
    (inputs.mapIdx (blanked index code hashType)).map previous = inputs.map previous :=
  map_mapIdx_of_eq fun _ _ => rfl

theorem map_sequence_blanked (h : HashType.freesSequences hashType = false) :
    (inputs.mapIdx (blanked index code hashType)).map sequence = inputs.map sequence :=
  map_mapIdx_of_eq fun i input => by simp [blanked, h]

/-- Blanking keeps the outpoints, the signed sequence, and the other sequences
unless the mode frees them. -/
theorem mapIdx_blanked_eq_iff {signed₁ signed₂ : Input} (h₁ : inputs₁[index]? = some signed₁)
    (h₂ : inputs₂[index]? = some signed₂) :
    inputs₁.mapIdx (blanked index code₁ hashType) = inputs₂.mapIdx (blanked index code₂ hashType) ↔
      code₁.withoutSeparators = code₂.withoutSeparators ∧ signed₁.sequence = signed₂.sequence ∧
        inputs₁.map previous = inputs₂.map previous ∧
        (HashType.freesSequences hashType = false →
          inputs₁.map sequence = inputs₂.map sequence) := by
  constructor
  · intro heq
    have hsigned := congrArg (·[index]?) heq
    simp only [List.getElem?_mapIdx, h₁, h₂, Option.map_some, blanked_self, Option.some.injEq,
      Input.mk.injEq] at hsigned
    obtain ⟨_, hcode, hsequence⟩ := hsigned
    refine ⟨hcode, hsequence, ?_, fun hkept => ?_⟩
    · simpa only [map_previous_blanked] using congrArg (List.map previous) heq
    · simpa only [map_sequence_blanked hkept] using congrArg (List.map sequence) heq
  · rintro ⟨hcode, hsequence, hprevious, hsequences⟩
    have hlength : inputs₁.length = inputs₂.length := by
      simpa using congrArg List.length hprevious
    refine List.ext_getElem (by simpa using hlength) fun i hi₁ hi₂ => ?_
    simp only [List.length_mapIdx] at hi₁ hi₂
    have hpreviousAt : inputs₁[i].previous = inputs₂[i].previous := by
      simpa [hi₁, hi₂] using congrArg (·[i]?) hprevious
    simp only [List.getElem_mapIdx]
    by_cases hi : i = index
    · subst hi
      obtain ⟨_, rfl⟩ := List.getElem?_eq_some_iff.1 h₁
      obtain ⟨_, rfl⟩ := List.getElem?_eq_some_iff.1 h₂
      simp only [blanked_self, hpreviousAt, hcode, hsequence]
    · refine (blanked_eq_iff_of_ne hi).2 ⟨hpreviousAt, fun hkept => ?_⟩
      simpa [hi₁, hi₂] using congrArg (·[i]?) (hsequences hkept)

end Input

namespace Transaction

variable {tx : Transaction} {index : Nat} {code : Script} {hashType : UInt32}

/-- The inputs of the signing copy. -/
def signedInputs (index : Nat) (code : Script) (hashType : UInt32) (inputs : List Input) :
    List Input :=
  let blanked := inputs.mapIdx (Input.blanked index code hashType)
  if HashType.isAnyoneCanPay hashType then (blanked.drop index).take 1 else blanked

/-- The outputs of the signing copy. -/
def signedOutputs (index : Nat) (hashType : UInt32) (outputs : List Output) : List Output :=
  if HashType.base hashType = HashType.none then []
  else if HashType.base hashType = HashType.single then
    (outputs.take (index + 1)).mapIdx fun i output => if i < index then Output.null else output
  else outputs

theorem withSignedOutputs_eq :
    tx.withSignedOutputs index hashType =
      { tx with outputs := signedOutputs index hashType tx.outputs } := by
  unfold withSignedOutputs signedOutputs
  split
  · rfl
  · split <;> rfl

theorem withFreeSequences_eq :
    tx.withFreeSequences index hashType =
      { tx with inputs := tx.inputs.mapIdx fun i input =>
          if HashType.freesSequences hashType ∧ i ≠ index then { input with sequence := 0 }
          else input } := by
  unfold withFreeSequences
  cases HashType.freesSequences hashType with
  | true => simp only [if_true, true_and, ite_not]
  | false =>
    have hsame : tx.inputs.mapIdx (fun _ input => input) = tx.inputs :=
      List.mapIdx_eq_iff.2 fun i => by simp
    simp [hsame]

theorem withSignedInputs_eq :
    tx.withSignedInputs index hashType =
      { tx with inputs := if HashType.isAnyoneCanPay hashType then (tx.inputs.drop index).take 1
          else tx.inputs } := by
  unfold withSignedInputs
  split <;> rfl

/-- The stages that make the signing copy touch the inputs and the outputs
separately, and nothing else. -/
theorem signingCopy_eq :
    tx.signingCopy index code hashType =
      { version := tx.version
        inputs := signedInputs index code hashType tx.inputs
        outputs := signedOutputs index hashType tx.outputs
        lockTime := tx.lockTime } := by
  have hblanked : (fun i (input : Input) =>
      if HashType.freesSequences hashType ∧ i ≠ index then
        { input with script := if i = index then code.withoutSeparators else [], sequence := 0 }
      else { input with script := if i = index then code.withoutSeparators else [] }) =
      Input.blanked index code hashType := by
    funext i input
    unfold Input.blanked
    split <;> rfl
  unfold signingCopy withScriptCode
  rw [withSignedOutputs_eq, withFreeSequences_eq, withSignedInputs_eq]
  simp only [List.mapIdx_mapIdx, Function.comp_def, hblanked, signedInputs]

/-- The inputs that are signed are some of the blanked ones, in order. -/
theorem signedInputs_sublist {inputs : List Input} :
    (signedInputs index code hashType inputs).Sublist
      (inputs.mapIdx (Input.blanked index code hashType)) := by
  unfold signedInputs
  split
  · exact (List.take_sublist _ _).trans (List.drop_sublist _ _)
  · exact List.Sublist.refl _

theorem length_signedOutputs_le {outputs : List Output} :
    (signedOutputs index hashType outputs).length ≤ outputs.length := by
  unfold signedOutputs
  split
  · exact Nat.zero_le _
  · split
    · simp only [List.length_mapIdx]
      exact List.length_take_le' _ _
    · exact le_refl _

/-- The outputs of a signing copy are placeholders or outputs of the transaction. -/
theorem mem_signedOutputs {outputs : List Output} {output : Output}
    (h : output ∈ signedOutputs index hashType outputs) : output = Output.null ∨ output ∈ outputs := by
  unfold signedOutputs at h
  split at h
  · cases h
  · split at h
    · obtain ⟨i, hi, rfl⟩ := List.mem_mapIdx.1 h
      split
      · exact .inl rfl
      · exact .inr (List.mem_of_mem_take (List.getElem_mem hi))
    · exact .inr h

/-- The signing copy has no longer counts and no longer scripts than the
transaction and the script code together. -/
theorem signingCopy_encodable (h : tx.Encodable) (hcode : code.length < 2 ^ 64) :
    (tx.signingCopy index code hashType).Encodable := by
  rw [signingCopy_eq]
  constructor
  · refine (List.Sublist.length_le signedInputs_sublist).trans_lt ?_
    rw [List.length_mapIdx]
    exact h.inputs_length
  · intro input hinput
    obtain ⟨i, hi, rfl⟩ := List.mem_mapIdx.1 (signedInputs_sublist.subset hinput)
    exact Input.blanked_encodable hcode
  · exact length_signedOutputs_le.trans_lt h.outputs_length
  · intro output houtput
    obtain rfl | hmem := mem_signedOutputs houtput
    · exact Nat.two_pow_pos 64
    · exact h.outputs output hmem

theorem signedInputs_of_kept {inputs : List Input} (h : HashType.isAnyoneCanPay hashType = false) :
    signedInputs index code hashType inputs =
      inputs.mapIdx (Input.blanked index code hashType) := by
  simp [signedInputs, h]

/-- Where others may add inputs, the copy does not tell the place of its own. -/
theorem signedInputs_of_anyoneCanPay {inputs : List Input} {signed : Input}
    (h : HashType.isAnyoneCanPay hashType) (hsigned : inputs[index]? = some signed) :
    signedInputs index code hashType inputs =
      [⟨signed.previous, code.withoutSeparators, signed.sequence⟩] := by
  obtain ⟨hlt, rfl⟩ := List.getElem?_eq_some_iff.1 hsigned
  have hlt' : index < (inputs.mapIdx (Input.blanked index code hashType)).length := by
    simpa using hlt
  simp only [signedInputs, h, if_true, List.drop_eq_getElem_cons hlt', List.take_succ_cons,
    List.take_zero, List.getElem_mapIdx, Input.blanked_self]

theorem signedOutputs_of_none {outputs : List Output}
    (h : HashType.base hashType = HashType.none) : signedOutputs index hashType outputs = [] :=
  if_pos h

/-- A single output is signed behind placeholders for those in front of it. -/
theorem signedOutputs_of_single {outputs : List Output} {signed : Output}
    (h : HashType.base hashType = HashType.single) (hsigned : outputs[index]? = some signed) :
    signedOutputs index hashType outputs = List.replicate index Output.null ++ [signed] := by
  have hnone : HashType.base hashType ≠ HashType.none := by
    rw [h]
    decide
  have hlength : (outputs.take index).length = index := by
    obtain ⟨hlt, _⟩ := List.getElem?_eq_some_iff.1 hsigned
    exact List.length_take_of_le hlt.le
  have htake : outputs.take (index + 1) = outputs.take index ++ [signed] := by
    rw [List.take_add_one, hsigned, Option.toList_some]
  have hnulled : (outputs.take index).mapIdx
      (fun i output => if i < index then Output.null else output) =
        List.replicate index Output.null := by
    refine List.ext_getElem (by simpa using hlength) fun i hi _ => ?_
    have hi' : i < index := by
      rwa [List.length_mapIdx, hlength] at hi
    simp only [List.getElem_mapIdx, if_pos hi', List.getElem_replicate]
  simp only [signedOutputs, if_neg hnone, if_pos h, htake, List.mapIdx_append, hnulled,
    List.mapIdx_singleton, hlength, Nat.zero_add, Nat.lt_irrefl, if_false]

theorem signedOutputs_of_all {outputs : List Output}
    (hnone : HashType.base hashType ≠ HashType.none)
    (hsingle : HashType.base hashType ≠ HashType.single) :
    signedOutputs index hashType outputs = outputs := by
  simp only [signedOutputs, if_neg hnone, if_neg hsingle]

end Transaction

end SpendCheck
