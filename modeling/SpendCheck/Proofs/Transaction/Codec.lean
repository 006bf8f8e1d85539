import SpendCheck.Proofs.Transaction.Wire
import SpendCheck.Transaction.Codec

namespace SpendCheck

open Wire

theorem Wire.toNat_lt_digits (n : UInt32) : n.toNat < 256 ^ 4 :=
  n.toNat_lt

theorem Wire.ofNatLE_toNat_inj {a b : UInt32}
    (h : Bytes.ofNatLE 4 a.toNat = Bytes.ofNatLE 4 b.toNat) : a = b := by
  have hvalue := congrArg Bytes.toNatLE h
  rw [Bytes.toNatLE_ofNatLE (toNat_lt_digits a), Bytes.toNatLE_ofNatLE (toNat_lt_digits b)] at hvalue
  exact UInt32.toNat_inj.1 hvalue

/-- The script of an input is short enough for its length to be written. -/
def Input.Encodable (input : Input) : Prop :=
  input.script.length < 2 ^ 64

instance (input : Input) : Decidable input.Encodable :=
  inferInstanceAs (Decidable (input.script.length < 2 ^ 64))

/-- The script of an output is short enough for its length to be written. -/
def Output.Encodable (output : Output) : Prop :=
  output.script.length < 2 ^ 64

instance (output : Output) : Decidable output.Encodable :=
  inferInstanceAs (Decidable (output.script.length < 2 ^ 64))

/-- All counts and scripts are short enough for their lengths to be written. -/
structure Transaction.Encodable (tx : Transaction) : Prop where
  inputs_length : tx.inputs.length < 2 ^ 64
  inputs : ∀ input ∈ tx.inputs, input.Encodable
  outputs_length : tx.outputs.length < 2 ^ 64
  outputs : ∀ output ∈ tx.outputs, output.Encodable

instance (tx : Transaction) : Decidable tx.Encodable :=
  decidable_of_iff
    ((tx.inputs.length < 2 ^ 64 ∧ ∀ input ∈ tx.inputs, input.Encodable) ∧
      tx.outputs.length < 2 ^ 64 ∧ ∀ output ∈ tx.outputs, output.Encodable)
    ⟨fun ⟨⟨hcount, hinputs⟩, hnumber, houtputs⟩ => ⟨hcount, hinputs, hnumber, houtputs⟩,
      fun h => ⟨⟨h.inputs_length, h.inputs⟩, h.outputs_length, h.outputs⟩⟩

/-- An input is read from its encoding and from nothing else. Only the length of its script has
a bound. -/
theorem Input.reader_exact : Exact Input.reader Input.encode Input.Encodable := by
  intro bytes input rest
  unfold Input.reader
  simp only [bind_eq_ok_iff, pure_eq_ok_iff, readFixed_eq_ok_iff, readNat_eq_ok_iff,
    readSized_exact _ _ _]
  constructor
  · rintro ⟨txid, _, rfl, vout, _, ⟨hvout, rfl⟩, script, _, ⟨hscript, rfl⟩, sequence, _,
      ⟨hsequence, rfl⟩, rfl, rfl⟩
    refine ⟨hscript, ?_⟩
    have hvoutNat : (UInt32.ofNat vout).toNat = vout := UInt32.toNat_ofNat_of_lt' hvout
    have hsequenceNat : (UInt32.ofNat sequence).toNat = sequence :=
      UInt32.toNat_ofNat_of_lt' hsequence
    simp only [encode, hvoutNat, hsequenceNat, List.append_assoc]
  · rintro ⟨hscript, rfl⟩
    refine ⟨⟨input.previous.txid, input.previous.txid_length⟩, _, ?_, input.previous.vout.toNat, _,
      ⟨toNat_lt_digits _, rfl⟩, input.script, _, ⟨hscript, rfl⟩, input.sequence.toNat, _,
      ⟨toNat_lt_digits _, rfl⟩, ?_, rfl⟩
    · simp only [encode, List.append_assoc]
    · simp

theorem Output.reader_exact : Exact Output.reader Output.encode Output.Encodable := by
  intro bytes output rest
  unfold Output.reader
  simp only [bind_eq_ok_iff, pure_eq_ok_iff, readNat_eq_ok_iff, readSized_exact _ _ _]
  constructor
  · rintro ⟨value, _, ⟨hvalue, rfl⟩, script, _, ⟨hscript, rfl⟩, rfl, rfl⟩
    have hvalueNat : (UInt64.ofNat value).toNat = value := UInt64.toNat_ofNat_of_lt' hvalue
    refine ⟨hscript, ?_⟩
    simp only [encode, UInt64.toUInt64_toInt64, hvalueNat, List.append_assoc]
  · rintro ⟨hscript, rfl⟩
    refine ⟨output.value.toUInt64.toNat, _, ⟨UInt64.toNat_lt _, ?_⟩, output.script, _,
      ⟨hscript, rfl⟩, ?_, rfl⟩
    · simp only [encode, List.append_assoc]
    · simp

namespace Transaction

/-- A transaction is read from its encoding and from nothing else. -/
theorem reader_exact : Exact reader encode Encodable := by
  intro bytes tx rest
  unfold reader
  simp only [bind_eq_ok_iff, pure_eq_ok_iff, readNat_eq_ok_iff,
    readCounted_exact Input.reader_exact _ _ _, readCounted_exact Output.reader_exact _ _ _]
  constructor
  · rintro ⟨version, _, ⟨hversion, rfl⟩, inputs, _, ⟨⟨hcount, hinputs⟩, rfl⟩, outputs, _,
      ⟨⟨hnumber, houtputs⟩, rfl⟩, lockTime, _, ⟨hlockTime, rfl⟩, rfl, rfl⟩
    have hversionNat : (UInt32.ofNat version).toNat = version := UInt32.toNat_ofNat_of_lt' hversion
    have hlockTimeNat : (UInt32.ofNat lockTime).toNat = lockTime :=
      UInt32.toNat_ofNat_of_lt' hlockTime
    refine ⟨⟨hcount, hinputs, hnumber, houtputs⟩, ?_⟩
    simp only [encode, hversionNat, hlockTimeNat, List.append_assoc]
  · rintro ⟨⟨hcount, hinputs, hnumber, houtputs⟩, rfl⟩
    refine ⟨tx.version.toNat, _, ⟨toNat_lt_digits _, ?_⟩, tx.inputs, _,
      ⟨⟨hcount, hinputs⟩, rfl⟩, tx.outputs, _, ⟨⟨hnumber, houtputs⟩, rfl⟩, tx.lockTime.toNat, _,
      ⟨toNat_lt_digits _, rfl⟩, ?_, rfl⟩
    · simp only [encode, List.append_assoc]
    · simp

/-- Encodings of different transactions differ, whatever follows them. -/
theorem encode_append_inj {tx tx' : Transaction} (h : tx.Encodable) (h' : tx'.Encodable)
    {rest rest' : Bytes} (heq : tx.encode ++ rest = tx'.encode ++ rest') :
    tx = tx' ∧ rest = rest' :=
  reader_exact.append_inj h h' heq

end Transaction

end SpendCheck
