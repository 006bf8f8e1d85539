import SpendCheck.Script.Instruction
import SpendCheck.Script.Number

namespace SpendCheck.Script

/-- A single push of some data behind its length, in the shortest form of the
    length. -/
def pushData (data : Bytes) : Script :=
  if data.length ≤ Opcode.pushDirectMax.toNat then UInt8.ofNat data.length :: data
  else if data.length ≤ 0xff then Opcode.pushData1 :: Bytes.ofNatLE 1 data.length ++ data
  else if data.length ≤ 0xffff then Opcode.pushData2 :: Bytes.ofNatLE 2 data.length ++ data
  else Opcode.pushData4 :: Bytes.ofNatLE 4 data.length ++ data

/-- The shortest instruction that pushes some data: an opcode of its own for the
    empty string and the numbers -1 and 1 to 16, else a push behind a length. -/
def pushValue : Bytes → Script
  | [] => [0x00]
  | [b] =>
    if 1 ≤ b ∧ b ≤ 16 then [Opcode.reserved + b]
    else if b = 0x81 then [Opcode.negativeOne]
    else pushData [b]
  | data => pushData data

/-- The shortest push of a number. -/
def pushNumber (value : Int) : Script :=
  pushValue (Number.encode value)

end SpendCheck.Script
