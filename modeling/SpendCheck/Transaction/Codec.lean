import SpendCheck.Hash.Digest
import SpendCheck.Transaction.Basic
import SpendCheck.Transaction.Wire

namespace SpendCheck

open Wire

/-- The encoding of an input. -/
def Input.encode (input : Input) : Bytes :=
  input.previous.txid ++ Bytes.ofNatLE 4 input.previous.vout.toNat ++ sized input.script ++
    Bytes.ofNatLE 4 input.sequence.toNat

/-- The encoding of an output. -/
def Output.encode (output : Output) : Bytes :=
  Bytes.ofNatLE 8 output.value.toUInt64.toNat ++ sized output.script

/-- Reads an input. -/
def Input.reader : Reader Input := do
  let txid ← readFixed 32
  let vout ← readNat 4
  let script ← readSized
  let sequence ← readNat 4
  return ⟨⟨txid.val, UInt32.ofNat vout, txid.property⟩, script, UInt32.ofNat sequence⟩

/-- Reads an output. -/
def Output.reader : Reader Output := do
  let value ← readNat 8
  let script ← readSized
  return ⟨(UInt64.ofNat value).toInt64, script⟩

namespace Transaction

/-- The encoding of a transaction. -/
def encode (tx : Transaction) : Bytes :=
  Bytes.ofNatLE 4 tx.version.toNat ++ counted Input.encode tx.inputs ++
    counted Output.encode tx.outputs ++ Bytes.ofNatLE 4 tx.lockTime.toNat

/-- Reads a transaction. -/
def reader : Reader Transaction := do
  let version ← readNat 4
  let inputs ← readCounted Input.reader
  let outputs ← readCounted Output.reader
  let lockTime ← readNat 4
  return ⟨UInt32.ofNat version, inputs, outputs, UInt32.ofNat lockTime⟩

/-- Reads a transaction from the front of some data and tells how many bytes it
    takes. -/
def decodePrefix (bytes : Bytes) : Except Wire.Error (Transaction × Nat) :=
  match reader bytes with
  | .error e => .error e
  | .ok (tx, rest) => .ok (tx, bytes.length - rest.length)

/-- Why some data are not the encoding of one transaction. -/
inductive DecodeError where
  | malformed (cause : Wire.Error)
  | trailingData (consumed total : Nat)
deriving DecidableEq, Repr

/-- The sentence shown to a user. -/
def DecodeError.message : DecodeError → String
  | malformed cause => "malformed transaction: " ++ cause.message
  | trailingData consumed total =>
    "transaction ends at byte " ++ toString consumed ++ " of " ++ toString total

/-- Reads a transaction that takes all of the data. -/
def decode (bytes : Bytes) : Except DecodeError Transaction :=
  match decodePrefix bytes with
  | .error e => .error (.malformed e)
  | .ok (tx, consumed) =>
    if consumed = bytes.length then .ok tx else .error (.trailingData consumed bytes.length)

/-- The hash under which other transactions refer to this one. -/
def txid (tx : Transaction) : Bytes :=
  Hash.hash256 tx.encode

@[simp] theorem length_txid (tx : Transaction) : tx.txid.length = 32 := by
  simp [txid]

end Transaction

end SpendCheck
