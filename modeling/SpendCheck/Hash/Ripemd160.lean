import SpendCheck.Hash.Block

namespace SpendCheck.Hash

namespace Ripemd160

/-- The five chaining words. -/
structure State where
  a : UInt32
  b : UInt32
  c : UInt32
  d : UInt32
  e : UInt32

/-- The chaining words before the first block. -/
def initial : State :=
  ⟨0x67452301, 0xefcdab89, 0x98badcfe, 0x10325476, 0xc3d2e1f0⟩

/-- The message word that each step of the left line reads. -/
def leftOrder : List Nat :=
  [0, 1, 2, 3, 4, 5, 6, 7, 8, 9, 10, 11, 12, 13, 14, 15,
    7, 4, 13, 1, 10, 6, 15, 3, 12, 0, 9, 5, 2, 14, 11, 8,
    3, 10, 14, 4, 9, 15, 8, 1, 2, 7, 0, 6, 13, 11, 5, 12,
    1, 9, 11, 10, 0, 8, 12, 4, 13, 3, 7, 15, 14, 5, 6, 2,
    4, 0, 5, 9, 7, 12, 2, 10, 14, 1, 3, 8, 11, 6, 15, 13]

/-- The message word that each step of the right line reads. -/
def rightOrder : List Nat :=
  [5, 14, 7, 0, 9, 2, 11, 4, 13, 6, 15, 8, 1, 10, 3, 12,
    6, 11, 3, 7, 0, 13, 5, 10, 14, 15, 8, 12, 4, 9, 1, 2,
    15, 5, 1, 3, 7, 14, 6, 9, 11, 8, 12, 2, 10, 0, 4, 13,
    8, 6, 4, 1, 3, 11, 15, 0, 5, 12, 2, 13, 9, 7, 10, 14,
    12, 15, 10, 4, 1, 5, 8, 7, 6, 2, 13, 14, 0, 3, 9, 11]

/-- The rotation of each step of the left line. -/
def leftShifts : List UInt32 :=
  [11, 14, 15, 12, 5, 8, 7, 9, 11, 13, 14, 15, 6, 7, 9, 8,
    7, 6, 8, 13, 11, 9, 7, 15, 7, 12, 15, 9, 11, 7, 13, 12,
    11, 13, 6, 7, 14, 9, 13, 15, 14, 8, 13, 6, 5, 12, 7, 5,
    11, 12, 14, 15, 14, 15, 9, 8, 9, 14, 5, 6, 8, 6, 5, 12,
    9, 15, 5, 11, 6, 8, 13, 12, 5, 12, 13, 14, 11, 8, 5, 6]

/-- The rotation of each step of the right line. -/
def rightShifts : List UInt32 :=
  [8, 9, 9, 11, 13, 15, 15, 5, 7, 7, 8, 11, 14, 14, 12, 6,
    9, 13, 15, 7, 12, 8, 9, 11, 7, 7, 12, 7, 6, 15, 13, 11,
    9, 7, 15, 11, 8, 6, 6, 14, 12, 13, 5, 14, 13, 13, 7, 5,
    15, 5, 8, 11, 14, 14, 6, 14, 6, 9, 12, 9, 12, 5, 15, 8,
    8, 5, 12, 9, 12, 5, 14, 6, 8, 13, 6, 5, 15, 13, 11, 11]

/-- The five mixing functions, by number. -/
def mix (number : Nat) (x y z : UInt32) : UInt32 :=
  match number with
  | 0 => x ^^^ y ^^^ z
  | 1 => (x &&& y) ||| (~~~x &&& z)
  | 2 => (x ||| ~~~y) ^^^ z
  | 3 => (x &&& z) ||| (y &&& ~~~z)
  | _ => x ^^^ (y ||| ~~~z)

/-- The constants of the left line, one for each sixteen steps. -/
def leftConstants : List UInt32 :=
  [0, 0x5a827999, 0x6ed9eba1, 0x8f1bbcdc, 0xa953fd4e]

/-- The constants of the right line, one for each sixteen steps. -/
def rightConstants : List UInt32 :=
  [0x50a28be6, 0x5c4dd124, 0x6d703ef3, 0x7a6d76e9, 0]

/-- One step of a line with the mixed word, the message word, the constant and
    the rotation. -/
def step (s : State) (mixed word constant shift : UInt32) : State :=
  ⟨s.e, rotateLeft (s.a + mixed + word + constant) shift + s.e, s.b, rotateLeft s.c 10, s.d⟩

/-- The left line over one block: the mixing functions in order. -/
def left (block : List UInt32) (s : State) : State :=
  (leftOrder.zip leftShifts).zipIdx.foldl (fun s entry =>
    step s (mix (entry.2 / 16) s.b s.c s.d) (block.getD entry.1.1 0)
      (leftConstants.getD (entry.2 / 16) 0) entry.1.2) s

/-- The right line over one block: the mixing functions in reverse order. -/
def right (block : List UInt32) (s : State) : State :=
  (rightOrder.zip rightShifts).zipIdx.foldl (fun s entry =>
    step s (mix (4 - entry.2 / 16) s.b s.c s.d) (block.getD entry.1.1 0)
      (rightConstants.getD (entry.2 / 16) 0) entry.1.2) s

/-- Folds one block into the chaining words. -/
def compress (s : State) (block : List UInt32) : State :=
  let l := left block s
  let r := right block s
  ⟨s.b + l.c + r.d, s.c + l.d + r.e, s.d + l.e + r.a, s.e + l.a + r.b, s.a + l.b + r.c⟩

end Ripemd160

/-- RIPEMD-160. -/
def ripemd160 (message : Bytes) : Bytes :=
  let s := (blocksLE message).foldl Ripemd160.compress Ripemd160.initial
  bytesLE [s.a, s.b, s.c, s.d, s.e]

@[simp] theorem length_ripemd160 (message : Bytes) : (ripemd160 message).length = 20 := by
  simp [ripemd160]

end SpendCheck.Hash
