import SpendCheck.Curve.Ecdsa
import SpendCheck.Signature.Der

namespace SpendCheck

/-- The sizes of the two integers of a signature, by the length bytes. -/
def componentSizes? (sig : Bytes) : Option (Nat × Nat) := do
  return (← StrictDer.sizeR? sig, ← StrictDer.sizeS? sig)

/-- Drops zero bytes on the left for as long as the number stays non-negative. -/
def dropPadding : Bytes → Bytes
  | first :: second :: rest =>
    if first = 0 ∧ second < 0x80 then dropPadding (second :: rest) else first :: second :: rest
  | bytes => bytes

/-- The first number that does not fit into 32 bytes. -/
def beyond32 : Nat := 0x10000000000000000000000000000000000000000000000000000000000000000

/-- The difference between the group order and a big-endian number of at most
    33 bytes, shortest with a clear high bit. Only the low 32 bytes of the
    number count, and so do those of the difference. -/
def negatedBody (s : Bytes) : Bytes :=
  let low := s.toNatBE % beyond32
  dropPadding (0 :: Bytes.ofNatBE 32 (Curve.groupOrder + (beyond32 - low)))

/-- Replaces the second integer of a signature by its negative and rebuilds what
    surrounds it. What follows stays. There is no result if an integer does not
    fit into the signature or the second one is too long. -/
def negateSignatureS? (sig : Bytes) : Option Bytes := do
  let (sizeR, sizeS) ← componentSizes? sig
  let (r, afterR) ← Bytes.splitAt? sizeR (sig.drop 4)
  let (s, trailer) ← Bytes.splitAt? sizeS (afterR.drop 2)
  if 33 < sizeS then none else some (Der.sequence r (negatedBody s) ++ trailer)

end SpendCheck
