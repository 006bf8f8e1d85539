import SpendCheck.Curve.Ecdsa
import SpendCheck.Script.Number

namespace SpendCheck

namespace Der

/-- The shortest big-endian form of a positive number whose high bit is clear. -/
def integerBody (value : Nat) : Bytes :=
  match (Number.digits value).reverse with
  | [] => [0]
  | first :: rest => if first &&& 0x80 ≠ 0 then 0 :: first :: rest else first :: rest

/-- A tagged integer. -/
def integer (body : Bytes) : Bytes :=
  0x02 :: UInt8.ofNat body.length :: body

/-- A tagged sequence of two integers. -/
def sequence (r s : Bytes) : Bytes :=
  0x30 :: UInt8.ofNat (4 + r.length + s.length) :: (integer r ++ integer s)

/-- The bytes of a signature. -/
def encode (sig : Curve.Signature) : Bytes :=
  sequence (integerBody sig.r) (integerBody sig.s)

end Der

namespace StrictDer

/-- The size of the first integer, as its length byte gives it. -/
def sizeR? (sig : Bytes) : Option Nat :=
  sig[3]?.map UInt8.toNat

/-- The size of the second integer, as its length byte gives it. -/
def sizeS? (sig : Bytes) : Option Nat := do
  sig[5 + (← sizeR? sig)]?.map UInt8.toNat

/-- The integer of a given size that begins at a given position is not empty, not
    negative, and not longer than necessary. -/
def isMinimalInteger? (sig : Bytes) (start size : Nat) : Option Bool := do
  if size = 0 then return false
  let first ← sig[start]?
  if first &&& 0x80 ≠ 0 then return false
  if size = 1 ∨ first ≠ 0 then return true
  let second ← sig[start + 1]?
  return second &&& 0x80 != 0

/-- Whether a signature followed by a hash type is
    `30 length 02 sizeR R 02 sizeS S hashType` with minimal R and S and exact
    lengths, in 9 to 73 bytes. The bytes are read by position, and there would
    be no answer if a position lay outside. -/
def verdict? (sig : Bytes) : Option Bool := do
  if sig.length < 9 ∨ 73 < sig.length then return false
  if (← sig[0]?) ≠ 0x30 then return false
  if (← sig[1]?).toNat ≠ sig.length - 3 then return false
  let sizeR ← sizeR? sig
  if sig.length ≤ 5 + sizeR then return false
  let sizeS ← sizeS? sig
  if sizeR + sizeS + 7 ≠ sig.length then return false
  if (← sig[2]?) ≠ 0x02 then return false
  unless ← isMinimalInteger? sig 4 sizeR do return false
  if (← sig[sizeR + 4]?) ≠ 0x02 then return false
  isMinimalInteger? sig (sizeR + 6) sizeS

/-- A signature followed by a hash type has the strict form. -/
def isStrict (sig : Bytes) : Bool :=
  verdict? sig == some true

end StrictDer

end SpendCheck
