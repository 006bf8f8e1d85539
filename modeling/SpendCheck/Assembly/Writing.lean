import SpendCheck.Assembly.Names
import SpendCheck.Bytes.Hex
import SpendCheck.Script.Instruction

namespace SpendCheck.Assembly

/-- A hexadecimal literal. -/
def literal (bytes : Bytes) : List Char :=
  '0' :: 'x' :: Hex.encode bytes

/-- The number that an opcode pushes, as a decimal word. -/
def numberWord? (opcode : Opcode) : Option (List Char) :=
  if opcode = Opcode.negativeOne then some ['-', '1']
  else if Opcode.reserved < opcode ∧ opcode ≤ Opcode.sixteen then
    some (Nat.toDigits 10 (opcode - Opcode.reserved).toNat)
  else none

/-- The name under which an opcode is written. -/
def nameWord? (opcode : Opcode) : Option (List Char) :=
  if firstNamed ≤ opcode ∧ opcode ≤ lastWritten then (name? opcode).map String.toList else none

/-- The words of an instruction. A push with a payload has two: everything before
    the payload, and the payload. -/
def instructionWords : Instruction → List (List Char)
  | .push opcode payload =>
    if payload ≠ [] then [literal (Instruction.header opcode payload.length), literal payload]
    else if opcode = 0x00 then [['0']]
    else [literal (Instruction.header opcode 0)]
  | .op opcode => [((numberWord? opcode).orElse fun _ => nameWord? opcode).getD (literal [opcode])]

/-- The words of a script; a tail that does not decode is one literal. -/
def scriptWords (script : Script) : List (List Char) :=
  script.instructions.flatMap instructionWords ++
    if script.tail.isEmpty then [] else [literal script.tail]

/-- Writes a script as words with single spaces between them. -/
def write (script : Script) : String :=
  String.ofList ([' '].intercalate (scriptWords script))

end SpendCheck.Assembly
