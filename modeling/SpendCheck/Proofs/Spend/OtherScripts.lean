import SpendCheck.Proofs.Spend.Parsing
import SpendCheck.Proofs.Transaction.SigningCopy

namespace SpendCheck

namespace Transaction

variable {tx tx' : Transaction} {index : Nat}

/-- The transaction with the unlocking scripts of the other inputs emptied. -/
def withoutOtherScripts (tx : Transaction) (index : Nat) : Transaction :=
  { tx with inputs := tx.inputs.mapIdx fun i input =>
      { input with script := if i = index then input.script else [] } }

theorem withoutOtherScripts_getElem? (tx : Transaction) (index : Nat) :
    (tx.withoutOtherScripts index).inputs[index]? = tx.inputs[index]? := by
  simp [withoutOtherScripts]

theorem length_withoutOtherScripts (tx : Transaction) (index : Nat) :
    (tx.withoutOtherScripts index).inputs.length = tx.inputs.length :=
  List.length_mapIdx

/-- A signing copy shows the script code or nothing in place of each script. -/
theorem signedInputs_withoutOtherScripts (tx : Transaction) (index : Nat) (code : Script)
    (hashType : UInt32) :
    signedInputs index code hashType (tx.withoutOtherScripts index).inputs =
      signedInputs index code hashType tx.inputs := by
  have hblanked : (tx.withoutOtherScripts index).inputs.mapIdx (Input.blanked index code hashType) =
      tx.inputs.mapIdx (Input.blanked index code hashType) := by
    simp only [withoutOtherScripts, List.mapIdx_mapIdx]
    rfl
  simp only [signedInputs, hblanked]

/-- The digest does not depend on the scripts of other inputs. -/
theorem signatureHash_withoutOtherScripts (tx : Transaction) (index : Nat) (code : Script)
    (hashType : UInt32) :
    (tx.withoutOtherScripts index).signatureHash index code hashType =
      tx.signatureHash index code hashType := by
  have hcopy : (tx.withoutOtherScripts index).signingCopy index code hashType =
      tx.signingCopy index code hashType := by
    rw [signingCopy_eq, signingCopy_eq, signedInputs_withoutOtherScripts]
    rfl
  have houtputs : (tx.withoutOtherScripts index).outputs = tx.outputs := rfl
  simp only [signatureHash, preimage?, hcopy, houtputs, length_withoutOtherScripts]

theorem ofInput_withoutOtherScripts (tx : Transaction) (index : Nat) :
    Checker.ofInput (tx.withoutOtherScripts index) index = Checker.ofInput tx index := by
  funext sig pubkey code
  simp only [Checker.ofInput, InputChecker.accepts, signatureHash_withoutOtherScripts]

theorem ofInput_eq_of_withoutOtherScripts_eq
    (h : tx.withoutOtherScripts index = tx'.withoutOtherScripts index) :
    Checker.ofInput tx index = Checker.ofInput tx' index := by
  rw [← ofInput_withoutOtherScripts tx, h, ofInput_withoutOtherScripts]

theorem getElem?_eq_of_withoutOtherScripts_eq
    (h : tx.withoutOtherScripts index = tx'.withoutOtherScripts index) :
    tx.inputs[index]? = tx'.inputs[index]? := by
  rw [← withoutOtherScripts_getElem? tx, h, withoutOtherScripts_getElem?]

end Transaction

/-- The answer for the encoding of a transaction. -/
theorem verifySpendDetailed_encode {tx : Transaction} (h : tx.Encodable) (locking : Script) (index : Nat)
    (bits : UInt32) :
    verifySpendDetailed locking tx.encode index bits =
      match tx.inputs[index]?, Flags.ofBits bits with
      | none, _ => .error (.ofSetup .inputIndex)
      | some _, .error e => .error (.ofSetup e)
      | some input, .ok flags =>
        (verifyScript flags (.ofInput tx index) input.script locking).result.mapError .ofScript := by
  have hread : Transaction.parse tx.encode = .ok tx := Transaction.parse_eq_ok_iff.2 ⟨h, rfl⟩
  cases hinput : tx.inputs[index]? with
  | none =>
    have hindex : tx.inputs.length ≤ index := List.getElem?_eq_none_iff.1 hinput
    exact verifySpendDetailed_of_parse_eq_error (Spend.parse_of_length_le hread hindex)
  | some input =>
    have hflags : Spend.parse tx.encode index bits =
        (Flags.ofBits bits).map fun flags => ⟨tx, index, input, flags⟩ :=
      Spend.parse_of_getElem? hread hinput
    cases hbits : Flags.ofBits bits with
    | error e =>
      rw [hbits] at hflags
      exact verifySpendDetailed_of_parse_eq_error hflags
    | ok flags =>
      rw [hbits] at hflags
      rw [verifySpendDetailed_of_parse_eq_ok hflags, Spend.verify]

/-- The unlocking scripts of other inputs do not matter. Transactions that differ in
nothing else have the same answer, for every locking script, whatever the index and the
flags: both spends are accepted, or both are refused for the same reason. -/
theorem other_scripts_do_not_matter {tx tx' : Transaction} {index : Nat}
    (htx : tx.Encodable) (htx' : tx'.Encodable)
    (h : tx.withoutOtherScripts index = tx'.withoutOtherScripts index) (locking : Script)
    (bits : UInt32) :
    verifySpendDetailed locking tx.encode index bits =
      verifySpendDetailed locking tx'.encode index bits := by
  rw [verifySpendDetailed_encode htx, verifySpendDetailed_encode htx',
    Transaction.getElem?_eq_of_withoutOtherScripts_eq h,
    Transaction.ofInput_eq_of_withoutOtherScripts_eq h]

/-- A signature is checked for the first of two inputs, and refused in both transactions. -/
theorem second_script_does_not_matter :
    ∃ tx tx' : Transaction, tx.Encodable ∧ tx'.Encodable ∧ tx.encode ≠ tx'.encode ∧
      tx.withoutOtherScripts 0 = tx'.withoutOtherScripts 0 ∧
      verifySpendDetailed [0xac] tx.encode 0 Flag.p2sh.mask = .error (.ofScript .evalFalse) ∧
      verifySpendDetailed [0xac] tx'.encode 0 Flag.p2sh.mask = .error (.ofScript .evalFalse) := by
  let tx : Transaction := ⟨1, [⟨.null, [1, 1, 1, 2], 7⟩, ⟨.null, [0x51], 9⟩], [⟨5, [0x51]⟩], 0⟩
  let tx' : Transaction := ⟨1, [⟨.null, [1, 1, 1, 2], 7⟩, ⟨.null, [0xac, 0x61], 9⟩], [⟨5, [0x51]⟩], 0⟩
  have htx : tx.Encodable := by decide +kernel
  have htx' : tx'.Encodable := by decide +kernel
  have hsame : tx.withoutOtherScripts 0 = tx'.withoutOtherScripts 0 := by decide +kernel
  have hrefused : verifySpendDetailed [0xac] tx.encode 0 Flag.p2sh.mask =
      .error (.ofScript .evalFalse) := by
    decide +kernel
  refine ⟨tx, tx', htx, htx', by decide +kernel, hsame, hrefused, ?_⟩
  rw [← other_scripts_do_not_matter htx htx' hsame, hrefused]

end SpendCheck
