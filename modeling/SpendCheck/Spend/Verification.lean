import SpendCheck.Spend.Unlocking

namespace SpendCheck

/-- Why a spend is refused. -/
inductive SpendError where
  | script
  | inputIndex
  | sizeMismatch
  | deserialize
  | invalidFlags
deriving DecidableEq, Repr

/-- The sentence shown to a user. -/
def SpendError.message : SpendError → String
  | script => "script evaluation failed"
  | inputIndex => "an invalid index for txTo"
  | sizeMismatch => "txToLen did not match with the size of txTo"
  | deserialize => "an error deserializing txTo"
  | invalidFlags => "script verification flags are invalid"

/-- Why a spend is refused, with the failure of the evaluation if there was one. -/
structure SpendFailure where
  error : SpendError
  scriptError : ScriptError
deriving DecidableEq, Repr

/-- A failure before any evaluation. -/
def SpendFailure.ofSetup (error : SpendError) : SpendFailure := ⟨error, .ok⟩

/-- A failure of the evaluation. -/
def SpendFailure.ofScript (error : ScriptError) : SpendFailure := ⟨.script, error⟩

/-- What a faulty encoding of a transaction means for a spend. -/
def SpendError.ofDecoding : Transaction.DecodeError → SpendError
  | .malformed _ => deserialize
  | .trailingData _ _ => sizeMismatch

namespace Transaction

/-- Reads a spending transaction that must take all of the data. -/
def parse (bytes : Bytes) : Except SpendError Transaction :=
  (decode bytes).mapError SpendError.ofDecoding

/-- The input at a position. -/
def inputAt (tx : Transaction) (index : Nat) : Except SpendError Input :=
  match tx.inputs[index]? with
  | none => .error .inputIndex
  | some input => .ok input

end Transaction

/-- Reads a mask of flags. -/
def Flags.ofBits (bits : UInt32) : Except SpendError Flags :=
  match ofBits? bits with
  | Option.none => .error .invalidFlags
  | some flags => .ok flags

/-- What a spend is verified with, read from bytes in this order: the
    transaction, the input and the flags. -/
structure Spend where
  tx : Transaction
  index : Nat
  input : Input
  flags : Flags

/-- Reads a spend; the first part that is wrong is reported. -/
def Spend.parse (txBytes : Bytes) (index : Nat) (bits : UInt32) : Except SpendError Spend := do
  let tx ← Transaction.parse txBytes
  let input ← tx.inputAt index
  let flags ← Flags.ofBits bits
  return ⟨tx, index, input, flags⟩

/-- Verifies the input of a spend against a locking script. -/
def Spend.verify (spend : Spend) (locking : Script) : Except ScriptError Unit :=
  (verifyScript spend.flags (.ofInput spend.tx spend.index) spend.input.script locking).result

/-- Verifies that an input of an encoded transaction may spend an output with a
    given locking script, and tells in detail why not. -/
def verifySpendDetailed (locking : Script) (txBytes : Bytes) (index : Nat) (bits : UInt32) :
    Except SpendFailure Unit :=
  match Spend.parse txBytes index bits with
  | .error e => .error (.ofSetup e)
  | .ok spend =>
    match spend.verify locking with
    | .error e => .error (.ofScript e)
    | .ok () => .ok ()

/-- Verifies that an input of an encoded transaction may spend an output with a
    given locking script. -/
def verifySpend (locking : Script) (txBytes : Bytes) (index : Nat) (bits : UInt32) :
    Except SpendError Unit :=
  match verifySpendDetailed locking txBytes index bits with
  | .error failure => .error failure.error
  | .ok () => .ok ()

/-- Verifies a spend with the default flags. -/
def verifySpendByDefault (locking : Script) (txBytes : Bytes) (index : Nat) :
    Except SpendError Unit :=
  verifySpend locking txBytes index Flags.default.bits

end SpendCheck
