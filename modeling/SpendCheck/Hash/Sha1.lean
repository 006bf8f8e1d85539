import SpendCheck.Hash.Block

namespace SpendCheck.Hash

namespace Sha1

/-- The five chaining words. -/
structure State where
  a : UInt32
  b : UInt32
  c : UInt32
  d : UInt32
  e : UInt32

/-- The chaining words before the first block. -/
def initial : State :=
  ⟨0x67452301, 0xefcdab89, 0x98badcfe, 0x10325476, 0xc3d2e1f0⟩

/-- The next schedule word, from at least sixteen words with the newest first. -/
def nextWord (newest : List UInt32) : UInt32 :=
  rotateLeft (newest.getD 2 0 ^^^ newest.getD 7 0 ^^^ newest.getD 13 0 ^^^ newest.getD 15 0) 1

/-- The 80 schedule words of a block of sixteen. -/
def schedule (block : List UInt32) : List UInt32 :=
  (Nat.repeat (fun newest => nextWord newest :: newest) 64 block.reverse).reverse

/-- The mixing function and the constant of a round. -/
def mix (index : Nat) (b c d : UInt32) : UInt32 :=
  if index < 20 then ((b &&& c) ||| (~~~b &&& d)) + 0x5a827999
  else if index < 40 then (b ^^^ c ^^^ d) + 0x6ed9eba1
  else if index < 60 then ((b &&& c) ||| (b &&& d) ||| (c &&& d)) + 0x8f1bbcdc
  else (b ^^^ c ^^^ d) + 0xca62c1d6

/-- One round with a schedule word and its index. -/
def round (s : State) (input : UInt32 × Nat) : State :=
  ⟨rotateLeft s.a 5 + mix input.2 s.b s.c s.d + s.e + input.1, s.a, rotateLeft s.b 30, s.c, s.d⟩

/-- Folds one block into the chaining words. -/
def compress (s : State) (block : List UInt32) : State :=
  let r := (schedule block).zipIdx.foldl round s
  ⟨s.a + r.a, s.b + r.b, s.c + r.c, s.d + r.d, s.e + r.e⟩

end Sha1

/-- SHA-1. -/
def sha1 (message : Bytes) : Bytes :=
  let s := (blocksBE message).foldl Sha1.compress Sha1.initial
  bytesBE [s.a, s.b, s.c, s.d, s.e]

@[simp] theorem length_sha1 (message : Bytes) : (sha1 message).length = 20 := by
  simp [sha1]

end SpendCheck.Hash
