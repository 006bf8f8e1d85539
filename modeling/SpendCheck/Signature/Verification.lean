import SpendCheck.Bytes.Basic
import SpendCheck.Curve.PublicKey
import SpendCheck.Curve.Ecdsa

namespace SpendCheck

namespace LaxDer

/-- Skips the length of the sequence, whose value plays no role. A first byte
    with the high bit set tells how many more bytes the length has. -/
def skipLength? : Bytes → Option Bytes
  | [] => none
  | first :: rest =>
    if first < 0x80 then some rest
    else (Bytes.splitAt? (first.toNat - 0x80) rest).map (·.2)

/-- Reads the length of an integer, in the same form. Leading zero bytes are
    free, and at most seven others are allowed. -/
def readLength? : Bytes → Option (Nat × Bytes)
  | [] => none
  | first :: rest =>
    if first < 0x80 then some (first.toNat, rest)
    else
      match Bytes.splitAt? (first.toNat - 0x80) rest with
      | none => none
      | some (lengthBytes, rest) =>
        let significant := lengthBytes.dropWhile (· == 0)
        if 8 ≤ significant.length then none else some (Bytes.toNatBE significant, rest)

/-- Reads a tagged integer and leaves the rest. -/
def readInteger? : Bytes → Option (Nat × Bytes)
  | 0x02 :: rest =>
    match readLength? rest with
    | none => none
    | some (length, rest) =>
      (Bytes.splitAt? length rest).map fun parts => (parts.1.toNatBE, parts.2)
  | _ => none

/-- Reads a signature with little regard to the form of its lengths, and ignores
    what follows. If a number is not below the group order, both become zero,
    so that the signature is readable but never valid. -/
def parse : Bytes → Option Curve.Signature
  | 0x30 :: rest =>
    match skipLength? rest with
    | none => none
    | some rest =>
      match readInteger? rest with
      | none => none
      | some (r, rest) =>
        match readInteger? rest with
        | none => none
        | some (s, _) =>
          if r < Curve.groupOrder ∧ s < Curve.groupOrder then some ⟨r, s⟩ else some ⟨0, 0⟩
  | _ => none

end LaxDer

/-- A signature without hash type belongs to a public key and a digest. Reading
    is lax, and of `s` and `n - s` either will do. -/
def verifySignature (der pubkey digest : Bytes) : Bool :=
  match Curve.parsePublicKey pubkey, LaxDer.parse der with
  | some key, some sig => Curve.verify key digest.toNatBE sig.normalized
  | _, _ => false

end SpendCheck
