import SpendCheck.Script.Basic

namespace SpendCheck.Assembly

/-- The first opcode with a name in the table. -/
def firstNamed : Opcode := 0x61

/-- The last opcode that is written by its name. -/
def lastWritten : Opcode := 0xaf

/-- The names of the opcodes from 61 on. -/
def names : List String :=
  ["NOP", "VER", "IF", "NOTIF", "VERIF", "VERNOTIF", "ELSE", "ENDIF", "VERIFY", "RETURN",
    "TOALTSTACK", "FROMALTSTACK", "2DROP", "2DUP", "3DUP", "2OVER", "2ROT", "2SWAP", "IFDUP",
    "DEPTH", "DROP", "DUP", "NIP", "OVER", "PICK", "ROLL", "ROT", "SWAP", "TUCK", "CAT", "SUBSTR",
    "LEFT", "RIGHT", "SIZE", "INVERT", "AND", "OR", "XOR", "EQUAL", "EQUALVERIFY", "RESERVED1",
    "RESERVED2", "1ADD", "1SUB", "2MUL", "2DIV", "NEGATE", "ABS", "NOT", "0NOTEQUAL", "ADD", "SUB",
    "MUL", "DIV", "MOD", "LSHIFT", "RSHIFT", "BOOLAND", "BOOLOR", "NUMEQUAL", "NUMEQUALVERIFY",
    "NUMNOTEQUAL", "LESSTHAN", "GREATERTHAN", "LESSTHANOREQUAL", "GREATERTHANOREQUAL", "MIN", "MAX",
    "WITHIN", "RIPEMD160", "SHA1", "SHA256", "HASH160", "HASH256", "CODESEPARATOR", "CHECKSIG",
    "CHECKSIGVERIFY", "CHECKMULTISIG", "CHECKMULTISIGVERIFY", "NOP1", "NOP2", "NOP3", "NOP4",
    "NOP5", "NOP6", "NOP7", "NOP8", "NOP9", "NOP10"]

/-- The name of an opcode. -/
def name? (opcode : Opcode) : Option String :=
  if opcode = Opcode.reserved then some "RESERVED"
  else if opcode < firstNamed then none
  else names[(opcode - firstNamed).toNat]?

/-- The opcodes that a word may name with or without a leading `OP_`. -/
def namedOpcodes : List (String × Opcode) :=
  ("RESERVED", Opcode.reserved) ::
    names.zipIdx.map fun entry => (entry.1, firstNamed + UInt8.ofNat entry.2)

/-- The opcodes that a word names only behind a leading `OP_`. -/
def numberedOpcodes : List (String × Opcode) :=
  [("0", 0x00), ("FALSE", 0x00), ("1NEGATE", Opcode.negativeOne), ("TRUE", Opcode.reserved + 1)] ++
    (List.range 16).map fun n => (Nat.repr (n + 1), Opcode.reserved + 1 + UInt8.ofNat n)

/-- The opcode that a table gives to a word. -/
def lookup? (table : List (String × Opcode)) (word : List Char) : Option Opcode :=
  (table.find? fun entry => entry.1.toList == word).map (·.2)

/-- The opcode that a word names. -/
def opcode? (word : List Char) : Option Opcode :=
  match word with
  | 'O' :: 'P' :: '_' :: rest => lookup? (namedOpcodes ++ numberedOpcodes) rest
  | _ => lookup? namedOpcodes word

end SpendCheck.Assembly
