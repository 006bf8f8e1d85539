import SpendCheck.Bytes.Basic
import SpendCheck.Policy.ScriptError

namespace SpendCheck.Number

/-- The widest operand of an arithmetic operation. -/
def maxSize : Nat := 4

/-- The base-256 digits of a number without leading zeros, least significant first. -/
def digits (value : Nat) : Bytes :=
  if value = 0 then [] else UInt8.ofNat value :: digits (value / 256)
termination_by value

/-- Puts a sign into the high bit of the last byte, or into a byte of its own
    where that bit is taken. -/
def sign (negative : Bool) : Bytes → Bytes
  | [] => []
  | [last] =>
    if last &&& 0x80 ≠ 0 then [last, if negative then 0x80 else 0x00]
    else if negative then [last ||| 0x80]
    else [last]
  | b :: rest => b :: sign negative rest

/-- The shortest little-endian sign-magnitude form; zero is empty. -/
def encode (value : Int) : Bytes :=
  sign (value < 0) (digits value.natAbs)

/-- The sign bit is set: the high bit of the last byte. -/
def isNegative (bytes : Bytes) : Bool :=
  bytes.getLast?.any fun last => last &&& 0x80 != 0

/-- The number that the bytes give without the sign bit. -/
def magnitude : Bytes → Nat
  | [] => 0
  | [last] => (last &&& 0x7f).toNat
  | b :: rest => b.toNat + 256 * magnitude rest

/-- The number in a little-endian sign-magnitude form, shortest or not. -/
def value (bytes : Bytes) : Int :=
  if isNegative bytes then -(magnitude bytes : Int) else magnitude bytes

/-- Reads an operand of at most `maxSize` bytes. -/
def decode (maxSize : Nat) (bytes : Bytes) : Except ScriptError Int :=
  if maxSize < bytes.length then .error .unknown else .ok (value bytes)

/-- The element of a truth value. -/
def ofBool (value : Bool) : Bytes :=
  if value then [1] else []

/-- An element is false if all its bytes are zero, where the last one may also
    be a bare sign bit. -/
def truthy : Bytes → Bool
  | [] => false
  | [last] => last != 0 && last != 0x80
  | b :: rest => b != 0 || truthy rest

end SpendCheck.Number
