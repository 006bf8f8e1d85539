import Mathlib.Order.WellFounded
import SpendCheck.Proofs.Transaction.Canonical
import SpendCheck.Spend.Verification

namespace SpendCheck

namespace Transaction

variable {bytes : Bytes} {tx : Transaction}

theorem parse_eq_ok_iff : parse bytes = .ok tx ↔ tx.Encodable ∧ tx.encode = bytes := by
  rw [← decode_eq_ok_iff, parse]
  cases decode bytes <;> simp [Except.mapError]

theorem parse_of_no_prefix (h : ∀ tx : Transaction, tx.Encodable → ¬tx.encode <+: bytes) :
    parse bytes = .error .deserialize := by
  unfold parse decode
  cases hread : decodePrefix bytes with
  | error cause => rfl
  | ok found =>
    obtain ⟨hencodable, -, htake⟩ := decodePrefix_eq_ok_iff.1 hread
    exact absurd (htake ▸ List.take_prefix _ bytes) (h _ hencodable)

theorem parse_encode_append (h : tx.Encodable) {more : Bytes} (hmore : more ≠ []) :
    parse (tx.encode ++ more) = .error .sizeMismatch := by
  rw [parse, decode_encode_append h hmore]
  rfl

theorem parse_of_proper_prefix (h : tx.Encodable) (hbegins : tx.encode <+: bytes)
    (hlonger : tx.encode ≠ bytes) : parse bytes = .error .sizeMismatch := by
  obtain ⟨more, rfl⟩ := hbegins
  exact parse_encode_append h fun hnone => hlonger (List.self_eq_append_right.2 hnone)

theorem inputAt_of_length_le {index : Nat} (h : tx.inputs.length ≤ index) :
    tx.inputAt index = .error .inputIndex := by
  rw [inputAt, List.getElem?_eq_none h]

theorem inputAt_of_getElem? {index : Nat} {input : Input} (h : tx.inputs[index]? = some input) :
    tx.inputAt index = .ok input := by
  rw [inputAt, h]

end Transaction

/-- The place of an error in the order in which the parts of a spend are looked at. -/
def SpendError.stage : SpendError → Nat
  | deserialize => 0
  | sizeMismatch => 1
  | inputIndex => 2
  | invalidFlags => 3
  | script => 4

namespace Spend

/-- A part of a spend is wrong, whatever is wrong with the other parts. The input is
missing in the transaction at the front of the data, also where other data follow. -/
inductive Fault (txBytes : Bytes) (index : Nat) (bits : UInt32) : SpendError → Prop
  | deserialize (hnone : ∀ tx : Transaction, tx.Encodable → ¬tx.encode <+: txBytes) :
      Fault txBytes index bits .deserialize
  | sizeMismatch {tx : Transaction} (htx : tx.Encodable) (hbegins : tx.encode <+: txBytes)
      (hlonger : tx.encode ≠ txBytes) : Fault txBytes index bits .sizeMismatch
  | inputIndex {tx : Transaction} (htx : tx.Encodable) (hbegins : tx.encode <+: txBytes)
      (hindex : tx.inputs.length ≤ index) : Fault txBytes index bits .inputIndex
  | invalidFlags (hbits : bits &&& ~~~Flags.standardMask ≠ 0) : Fault txBytes index bits .invalidFlags

/-- A part of a spend is wrong, and no part that is looked at before it. -/
structure FirstFault (txBytes : Bytes) (index : Nat) (bits : UInt32) (e : SpendError) : Prop where
  fault : Fault txBytes index bits e
  earlier : ∀ other, other.stage < e.stage → ¬Fault txBytes index bits other

variable {txBytes : Bytes} {index : Nat} {bits : UInt32} {e : SpendError} {tx : Transaction}

theorem parse_of_error (h : Transaction.parse txBytes = .error e) :
    parse txBytes index bits = .error e := by
  rw [parse, h]
  rfl

theorem parse_of_ok (h : Transaction.parse txBytes = .ok tx) :
    parse txBytes index bits = (tx.inputAt index).bind fun input =>
      (Flags.ofBits bits).map fun flags => ⟨tx, index, input, flags⟩ := by
  rw [parse, h]
  cases Flags.ofBits bits <;> rfl

theorem parse_of_length_le (h : Transaction.parse txBytes = .ok tx) (hindex : tx.inputs.length ≤ index) :
    parse txBytes index bits = .error .inputIndex := by
  rw [parse_of_ok h, Transaction.inputAt_of_length_le hindex]
  rfl

theorem parse_of_getElem? {input : Input} (h : Transaction.parse txBytes = .ok tx)
    (hinput : tx.inputs[index]? = some input) :
    parse txBytes index bits = (Flags.ofBits bits).map fun flags => ⟨tx, index, input, flags⟩ := by
  rw [parse_of_ok h, Transaction.inputAt_of_getElem? hinput]
  rfl

/-- Data that are read and leave nothing over are the encoding of a transaction. -/
theorem exists_encode_of_not_fault (hread : ¬Fault txBytes index bits .deserialize)
    (hsize : ¬Fault txBytes index bits .sizeMismatch) :
    ∃ tx : Transaction, tx.Encodable ∧ tx.encode = txBytes := by
  have hsome : ¬∀ tx : Transaction, tx.Encodable → ¬tx.encode <+: txBytes :=
    fun hnone => hread (.deserialize hnone)
  simp only [not_forall, not_not] at hsome
  obtain ⟨tx, htx, hbegins⟩ := hsome
  refine ⟨tx, htx, ?_⟩
  by_contra hlonger
  exact hsize (.sizeMismatch htx hbegins hlonger)

/-- Where no part is wrong the data are the encoding of a transaction, and the spend is
read from it. -/
theorem exists_parse_of_not_fault (h : ∀ e, ¬Fault txBytes index bits e) :
    ∃ (tx : Transaction) (input : Input), tx.Encodable ∧ tx.encode = txBytes ∧
      tx.inputs[index]? = some input ∧ parse txBytes index bits = .ok ⟨tx, index, input, ⟨bits⟩⟩ := by
  obtain ⟨tx, htx, hbytes⟩ := exists_encode_of_not_fault (h .deserialize) (h .sizeMismatch)
  have hbegins : tx.encode <+: txBytes := hbytes ▸ List.prefix_rfl
  have hindex : index < tx.inputs.length :=
    Nat.not_le.1 fun hle => h .inputIndex (.inputIndex htx hbegins hle)
  have hbits : bits &&& ~~~Flags.standardMask = 0 := by
    by_contra hbits
    exact h .invalidFlags (.invalidFlags hbits)
  refine ⟨tx, tx.inputs[index], htx, hbytes, List.getElem?_eq_getElem hindex, ?_⟩
  rw [parse_of_getElem? (Transaction.parse_eq_ok_iff.2 ⟨htx, hbytes⟩) (List.getElem?_eq_getElem hindex),
    Flags.ofBits, Flags.ofBits?, if_pos hbits]
  rfl

/-- What is reported is the first fault in the order in which the parts are looked at. -/
theorem FirstFault.parse_eq (h : FirstFault txBytes index bits e) :
    parse txBytes index bits = .error e := by
  -- Where the first two parts are in order, the data are the encoding of one transaction.
  have hwhole : 1 < e.stage → ∃ tx : Transaction, tx.Encodable ∧ tx.encode = txBytes := by
    intro hlater
    exact exists_encode_of_not_fault (h.earlier .deserialize (Nat.lt_trans Nat.zero_lt_one hlater))
      (h.earlier .sizeMismatch hlater)
  cases h.fault with
  | deserialize hnone => exact parse_of_error (Transaction.parse_of_no_prefix hnone)
  | sizeMismatch htx hbegins hlonger =>
    exact parse_of_error (Transaction.parse_of_proper_prefix htx hbegins hlonger)
  | inputIndex htx' hbegins hindex =>
    obtain ⟨tx, htx, hbytes⟩ := hwhole (by decide)
    obtain rfl := Transaction.eq_of_encode_prefix htx' htx (hbytes ▸ hbegins)
    exact parse_of_length_le (Transaction.parse_eq_ok_iff.2 ⟨htx, hbytes⟩) hindex
  | invalidFlags hbits =>
    obtain ⟨tx, htx, hbytes⟩ := hwhole (by decide)
    have hindex : index < tx.inputs.length := by
      by_contra hle
      exact h.earlier .inputIndex (by decide)
        (.inputIndex htx (hbytes ▸ List.prefix_rfl) (Nat.not_lt.1 hle))
    rw [parse_of_getElem? (Transaction.parse_eq_ok_iff.2 ⟨htx, hbytes⟩) (List.getElem?_eq_getElem hindex),
      Flags.ofBits, Flags.ofBits?, if_neg hbits]
    rfl

/-- Of the parts that are wrong one is looked at first, unless none is wrong. -/
theorem firstFault_or_not_fault (txBytes : Bytes) (index : Nat) (bits : UInt32) :
    (∃ e, FirstFault txBytes index bits e) ∨ ∀ e, ¬Fault txBytes index bits e := by
  by_cases hnone : ∀ e, ¬Fault txBytes index bits e
  · exact .inr hnone
  · simp only [not_forall, not_not] at hnone
    obtain ⟨first, hfault, hmin⟩ :=
      (measure SpendError.stage).wf.has_min {e | Fault txBytes index bits e} hnone
    exact .inl ⟨first, hfault, fun other hlt hother => hmin other hother hlt⟩

end Spend

variable {locking : Script} {txBytes : Bytes} {index : Nat} {bits : UInt32}

theorem verifySpendDetailed_of_parse_eq_error {e : SpendError}
    (h : Spend.parse txBytes index bits = .error e) :
    verifySpendDetailed locking txBytes index bits = .error (.ofSetup e) := by
  rw [verifySpendDetailed, h]

theorem verifySpendDetailed_of_parse_eq_ok {spend : Spend}
    (h : Spend.parse txBytes index bits = .ok spend) :
    verifySpendDetailed locking txBytes index bits = (spend.verify locking).mapError .ofScript := by
  rw [verifySpendDetailed, h]
  cases hverify : spend.verify locking <;> simp only [hverify, Except.mapError]

end SpendCheck
