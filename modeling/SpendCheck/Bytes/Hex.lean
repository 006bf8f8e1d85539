import SpendCheck.Bytes.Basic

namespace SpendCheck.Hex

/-- The value of a hexadecimal digit of either letter case. -/
def digit? (c : Char) : Option UInt8 :=
  if '0' ≤ c ∧ c ≤ '9' then some (UInt8.ofNat (c.toNat - 48))
  else if 'a' ≤ c ∧ c ≤ 'f' then some (UInt8.ofNat (c.toNat - 87))
  else if 'A' ≤ c ∧ c ≤ 'F' then some (UInt8.ofNat (c.toNat - 55))
  else none

/-- The lower-case digit of a value below sixteen. -/
def digitChar (value : UInt8) : Char :=
  if value < 10 then Char.ofNat (value.toNat + 48) else Char.ofNat (value.toNat + 87)

/-- Reads two digits a byte; an odd count or another character is refused. -/
def decode : List Char → Option Bytes
  | [] => some []
  | [_] => none
  | high :: low :: rest =>
    match digit? high, digit? low, decode rest with
    | some h, some l, some bytes => some ((16 * h + l) :: bytes)
    | _, _, _ => none

/-- Writes two lower-case digits a byte. -/
def encode (bytes : Bytes) : List Char :=
  bytes.flatMap fun b => [digitChar (b / 16), digitChar (b % 16)]

/-- The lower-case text of a byte string. -/
def text (bytes : Bytes) : String :=
  String.ofList (encode bytes)

end SpendCheck.Hex
