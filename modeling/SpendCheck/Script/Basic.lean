import SpendCheck.Bytes.Basic

namespace SpendCheck

/-- A script is a byte string, read as a sequence of pushes and other opcodes. -/
abbrev Script := Bytes

/-- Longer scripts are not evaluated. -/
def maxScriptSize : Nat := 10000

/-- The longest element that a push may place on the stack. -/
def maxElementSize : Nat := 520

/-- The first byte of an instruction. -/
abbrev Opcode := UInt8

namespace Opcode

/-- Longest direct push; smaller opcodes push as many bytes as they say. -/
def pushDirectMax : Opcode := 0x4b

/-- A push whose length is the next byte. -/
def pushData1 : Opcode := 0x4c

/-- A push whose length is in the next two bytes. -/
def pushData2 : Opcode := 0x4d

/-- A push whose length is in the next four bytes. -/
def pushData4 : Opcode := 0x4e

/-- Pushes the number -1. -/
def negativeOne : Opcode := 0x4f

/-- One less than the opcode that pushes the number 1; it is not a push itself. -/
def reserved : Opcode := 0x50

/-- Pushes the number 16; higher opcodes count as operations. -/
def sixteen : Opcode := 0x60

/-- Compares two elements. -/
def equal : Opcode := 0x87

/-- Replaces an element by its 20-byte hash. -/
def hash160 : Opcode := 0xa9

/-- Marks where the signed part of a script begins. -/
def codeSeparator : Opcode := 0xab

end Opcode

end SpendCheck
