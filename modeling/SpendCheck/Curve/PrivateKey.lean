import SpendCheck.Curve.Nonce
import SpendCheck.Curve.PublicKey
import SpendCheck.Signature.Der

namespace SpendCheck.Curve

/-- A secret number, its point, and the form in which that point is written. -/
structure PrivateKey where
  secret : Nat
  point : Point
  compressed : Bool

/-- The sentence shown for bytes that are no secret. -/
def invalidSecretMessage : String := "secret key is out of range"

namespace PrivateKey

/-- Reads a secret of 32 bytes; zero and numbers from the group order on are
    refused. -/
def ofBytes? (bytes : Bytes) (compressed : Bool) : Option PrivateKey :=
  let secret := bytes.toNatBE
  if bytes.length = 32 ∧ 0 < secret ∧ secret < groupOrder then
    (generatorMultiple? secret).map fun point => ⟨secret, point, compressed⟩
  else none

/-- The public key in its written form. -/
def publicKey (key : PrivateKey) : Bytes :=
  if key.compressed then key.point.compressed else key.point.uncompressed

/-- A description that does not reveal the secret. -/
def description (key : PrivateKey) : String :=
  "PrivateKey \x7b compressed: " ++ (if key.compressed then "true" else "false") ++ ", .. \x7d"

/-- The seed of the nonces for a message: a counter other than zero adds a block
    of its own, so that each counter leads to another signature. -/
def nonceSeed (key : PrivateKey) (message : Nat) (counter : UInt32) : Bytes :=
  Bytes.ofNatBE 32 key.secret ++ Bytes.ofNatBE 32 (message % groupOrder) ++
    if counter = 0 then [] else Bytes.ofNatLE 32 counter.toNat

/-- How many nonces are tried. All but a negligible part of the nonces are
    suitable, so the first one nearly always is. -/
def maxNonces : Nat := 16

/-- The signature of a digest, with the first suitable nonce. -/
def sign (key : PrivateKey) (digest : Bytes) (counter : UInt32) : Option Bytes :=
  let message := digest.toNatBE
  ((Nonce.candidates maxNonces (key.nonceSeed message counter)).findSome?
    (signWith? key.secret message)).map Der.encode

end PrivateKey

end SpendCheck.Curve
