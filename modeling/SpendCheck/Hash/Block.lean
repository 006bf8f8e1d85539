import SpendCheck.Bytes.Basic

namespace SpendCheck.Hash

/-- Cuts a list into pieces of sixteen; the last piece may be shorter. -/
def sixteens {α : Type} : List α → List (List α)
  | [] => []
  | a :: rest => (a :: rest.take 15) :: sixteens (rest.drop 15)
termination_by items => items.length
decreasing_by
  simp only [List.length_cons, List.length_drop]
  omega

/-- Reads 32-bit words of four bytes each; up to three bytes left over are dropped. -/
def words (value : Bytes → Nat) : Bytes → List UInt32
  | a :: b :: c :: d :: rest => UInt32.ofNat (value [a, b, c, d]) :: words value rest
  | _ => []

/-- A message followed by the byte 80, the least number of zeros and its length
    in bits, filling whole blocks of 64 bytes. -/
def padded (lengthField : Nat → Bytes) (message : Bytes) : Bytes :=
  message ++ 0x80 :: List.replicate ((119 - message.length % 64) % 64) 0 ++
    lengthField (8 * message.length)

/-- The blocks of a padded message as sixteen big-endian words each. -/
def blocksBE (message : Bytes) : List (List UInt32) :=
  sixteens (words Bytes.toNatBE (padded (Bytes.ofNatBE 8) message))

/-- The blocks of a padded message as sixteen little-endian words each. -/
def blocksLE (message : Bytes) : List (List UInt32) :=
  sixteens (words Bytes.toNatLE (padded (Bytes.ofNatLE 8) message))

/-- Writes words big-endian. -/
def bytesBE (words : List UInt32) : Bytes :=
  words.flatMap fun w => Bytes.ofNatBE 4 w.toNat

/-- Writes words little-endian. -/
def bytesLE (words : List UInt32) : Bytes :=
  words.flatMap fun w => Bytes.ofNatLE 4 w.toNat

/-- Rotates a word to the left by a count between 1 and 31. -/
def rotateLeft (word count : UInt32) : UInt32 :=
  (word <<< count) ||| (word >>> (32 - count))

/-- Rotates a word to the right by a count between 1 and 31. -/
def rotateRight (word count : UInt32) : UInt32 :=
  (word >>> count) ||| (word <<< (32 - count))

@[simp] theorem length_bytesBE (words : List UInt32) :
    (bytesBE words).length = 4 * words.length := by
  simp [bytesBE, List.map_const', Nat.mul_comm]

@[simp] theorem length_bytesLE (words : List UInt32) :
    (bytesLE words).length = 4 * words.length := by
  simp [bytesLE, List.map_const', Nat.mul_comm]

end SpendCheck.Hash
