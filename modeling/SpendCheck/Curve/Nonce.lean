import SpendCheck.Hash.Digest

namespace SpendCheck.Curve.Nonce

open Hash

/-- The state of the deterministic generator: a key and a value of 32 bytes each. -/
structure Generator where
  key : Bytes
  value : Bytes

/-- Mixes a marker byte and some data into the state. -/
def Generator.mix (g : Generator) (marker : UInt8) (data : Bytes) : Generator :=
  let key := hmacSha256 g.key (g.value ++ marker :: data)
  ⟨key, hmacSha256 key g.value⟩

/-- The state that a seed gives. -/
def Generator.ofSeed (seed : Bytes) : Generator :=
  ((Generator.mk (List.replicate 32 0) (List.replicate 32 1)).mix 0x00 seed).mix 0x01 seed

/-- The state after one more output, which is its value. -/
def Generator.output (g : Generator) : Generator :=
  { g with value := hmacSha256 g.key g.value }

/-- The first outputs for a seed, as numbers. Between two outputs the state is
    mixed once. -/
def candidates (count : Nat) (seed : Bytes) : List Nat :=
  go count (Generator.ofSeed seed)
where
  go : Nat → Generator → List Nat
    | 0, _ => []
    | count + 1, g =>
      let next := g.output
      next.value.toNatBE :: go count (next.mix 0x00 [])

end SpendCheck.Curve.Nonce
