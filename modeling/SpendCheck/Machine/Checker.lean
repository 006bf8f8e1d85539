import SpendCheck.Signature.Verification
import SpendCheck.Transaction.SignatureHash

namespace SpendCheck

/-- An input of a transaction, against which signatures are checked. -/
structure InputChecker where
  tx : Transaction
  index : Nat

/-- A signature, whose last byte is the hash type, belongs to a key and to what
    the input signs. -/
def InputChecker.accepts (checker : InputChecker) (sig pubkey : Bytes) (code : Script) : Bool :=
  match Curve.parsePublicKey pubkey, sig.getLast? with
  | some _, some hashType =>
    verifySignature sig.dropLast pubkey
      (checker.tx.signatureHash checker.index code hashType.toUInt32)
  | _, _ => false

/-- Tells whether a signature, with its hash type, belongs to a public key and a
    script code. -/
abbrev Checker := Bytes → Bytes → Script → Bool

namespace Checker

/-- Accepts no signature. -/
def refuseAll : Checker := fun _ _ _ => false

/-- Accepts every signature. -/
def acceptAll : Checker := fun _ _ _ => true

/-- Accepts the listed pairs of signature and key, whatever the script code. -/
def ofPairs (pairs : List (Bytes × Bytes)) : Checker := fun sig pubkey _ =>
  pairs.contains (sig, pubkey)

/-- Accepts what belongs to an input of a transaction. -/
def ofInput (tx : Transaction) (index : Nat) : Checker :=
  (InputChecker.mk tx index).accepts

end Checker

/-- A question to a checker and its answer. -/
structure Call where
  sig : Bytes
  pubkey : Bytes
  code : Script
  valid : Bool
deriving DecidableEq, Repr

end SpendCheck
