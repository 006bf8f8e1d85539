import SpendCheck.Bytes.Basic
import SpendCheck.Curve.Point

namespace SpendCheck.Curve

/-- The prefix of a compressed key: it tells whether y is even. -/
def parityPrefix (y : Nat) : UInt8 :=
  if y % 2 = 0 then 0x02 else 0x03

/-- The prefix and x, in 33 bytes. -/
def Point.compressed (p : Point) : Bytes :=
  parityPrefix p.y :: Bytes.ofNatBE 32 p.x

/-- Both coordinates, in 65 bytes. -/
def Point.uncompressed (p : Point) : Bytes :=
  0x04 :: (Bytes.ofNatBE 32 p.x ++ Bytes.ofNatBE 32 p.y)

/-- The point with a given x whose y is even or odd. -/
def liftX? (x : Nat) (odd : Bool) : Option Point :=
  if x < fieldPrime then
    (squareRoot? (equation x)).map fun root =>
      if (root % 2 == 1) == odd then ⟨x, root⟩ else ⟨x, fieldPrime - root⟩
  else none

/-- The point with given coordinates, if it is on the curve. -/
def ofCoordinates? (x y : Bytes) : Option Point :=
  let p : Point := ⟨x.toNatBE, y.toNatBE⟩
  if p.isOnCurve then some p else none

/-- Reads a public key: compressed, uncompressed, or hybrid, where the prefix
    gives y and its parity. -/
def parsePublicKey (bytes : Bytes) : Option Point :=
  match bytes with
  | [] => none
  | first :: rest =>
    if (first = 0x02 ∨ first = 0x03) ∧ rest.length = 32 then
      liftX? (Bytes.toNatBE rest) (first == 0x03)
    else if first = 0x04 ∧ rest.length = 64 then
      ofCoordinates? (rest.take 32) (rest.drop 32)
    else if (first = 0x06 ∨ first = 0x07) ∧ rest.length = 64 then
      if Bytes.toNatBE (rest.drop 32) % 2 = first.toNat % 2 then
        ofCoordinates? (rest.take 32) (rest.drop 32)
      else none
    else none

end SpendCheck.Curve
