import SpendCheck.Script.Deletion
import SpendCheck.Transaction.Codec

namespace SpendCheck

namespace HashType

/-- Signs all outputs. -/
def all : UInt8 := 0x01

/-- Signs no output. -/
def none : UInt8 := 0x02

/-- Signs the output at the position of the input. -/
def single : UInt8 := 0x03

/-- The bit that leaves the other inputs unsigned. -/
def anyoneCanPay : UInt8 := 0x80

/-- The mode that selects the outputs: the five low bits. -/
def base (hashType : UInt32) : UInt8 := (hashType &&& 0x1f).toUInt8

/-- The bit that leaves the other inputs unsigned is set. -/
def isAnyoneCanPay (hashType : UInt32) : Bool := hashType &&& anyoneCanPay.toUInt32 != 0

/-- The mode leaves the sequences of the other inputs unsigned. -/
def freesSequences (hashType : UInt32) : Bool :=
  base hashType == none || base hashType == single

end HashType

namespace Transaction

/-- Empties the unlocking scripts, except for the signed input, which gets the
    script code without its separators. -/
def withScriptCode (tx : Transaction) (index : Nat) (code : Script) : Transaction :=
  { tx with inputs := tx.inputs.mapIdx fun i input =>
      { input with script := if i = index then code.withoutSeparators else [] } }

/-- Keeps the outputs that a mode signs; those in front of a single one become
    placeholders. -/
def withSignedOutputs (tx : Transaction) (index : Nat) (hashType : UInt32) : Transaction :=
  if HashType.base hashType = HashType.none then { tx with outputs := [] }
  else if HashType.base hashType = HashType.single then
    { tx with outputs := (tx.outputs.take (index + 1)).mapIdx fun i output =>
        if i < index then Output.null else output }
  else tx

/-- Zeroes the sequences of the other inputs where the mode leaves them free. -/
def withFreeSequences (tx : Transaction) (index : Nat) (hashType : UInt32) : Transaction :=
  if HashType.freesSequences hashType then
    { tx with inputs := tx.inputs.mapIdx fun i input =>
        if i = index then input else { input with sequence := 0 } }
  else tx

/-- Drops the other inputs where others may add inputs of their own. -/
def withSignedInputs (tx : Transaction) (index : Nat) (hashType : UInt32) : Transaction :=
  if HashType.isAnyoneCanPay hashType then { tx with inputs := (tx.inputs.drop index).take 1 }
  else tx

/-- The transaction that an input signs in place of the real one. -/
def signingCopy (tx : Transaction) (index : Nat) (code : Script) (hashType : UInt32) :
    Transaction :=
  (((tx.withScriptCode index code).withSignedOutputs index hashType).withFreeSequences index
    hashType).withSignedInputs index hashType

/-- The bytes that an input signs: the signing copy and the hash type. There are
    none without such an input, or when a single output is asked for and there
    is no output at that position. -/
def preimage? (tx : Transaction) (index : Nat) (code : Script) (hashType : UInt32) :
    Option Bytes :=
  if tx.inputs.length ≤ index then none
  else if HashType.base hashType = HashType.single ∧ tx.outputs.length ≤ index then none
  else some ((tx.signingCopy index code hashType).encode ++ Bytes.ofNatLE 4 hashType.toNat)

/-- The digest where there is nothing to sign: the number 1, little-endian. -/
def oneHash : Bytes := 1 :: List.replicate 31 0

/-- The digest that an input signs. -/
def signatureHash (tx : Transaction) (index : Nat) (code : Script) (hashType : UInt32) : Bytes :=
  match tx.preimage? index code hashType with
  | some preimage => Hash.hash256 preimage
  | none => oneHash

@[simp] theorem length_signatureHash (tx : Transaction) (index : Nat) (code : Script)
    (hashType : UInt32) : (tx.signatureHash index code hashType).length = 32 := by
  unfold signatureHash
  split <;> simp [oneHash]

end Transaction

end SpendCheck
