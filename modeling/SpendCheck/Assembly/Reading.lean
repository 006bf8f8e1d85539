import SpendCheck.Assembly.Names
import SpendCheck.Bytes.Hex
import SpendCheck.Script.Push
import SpendCheck.Text.Words

namespace SpendCheck.Assembly

/-- Why a text is no script. -/
inductive ReadError where
  /-- A decimal word whose magnitude exceeds the largest one allowed. -/
  | decimalOutOfRange (word : String)
  /-- A word that is neither a number, a literal, a quotation nor a name. -/
  | unknownWord (word : String)
deriving DecidableEq, Repr

/-- The sentence shown to a user. -/
def ReadError.message : ReadError → String
  | decimalOutOfRange word => "decimal '" ++ word ++ "' is out of range"
  | unknownWord word => "script parse error at '" ++ word ++ "'"

/-- The largest magnitude of a decimal word. -/
def maxDecimal : Nat := 0xffffffff

/-- The value of a non-empty row of decimal digits. -/
def natural? (word : List Char) : Option Nat :=
  if !word.isEmpty && word.all Char.isDigit then
    some (word.foldl (fun value c => 10 * value + (c.toNat - 48)) 0)
  else none

/-- The value of a decimal word: digits, perhaps behind a minus sign. -/
def decimal? (word : List Char) : Option Int :=
  match word with
  | '-' :: digits => (natural? digits).map fun value => -(value : Int)
  | digits => (natural? digits).map fun value => (value : Int)

/-- The bytes of a hexadecimal literal behind `0x`, at least one. -/
def literal? (word : List Char) : Option Bytes :=
  match word with
  | '0' :: 'x' :: digits => if digits.isEmpty then none else Hex.decode digits
  | _ => none

/-- The text between single quotes. -/
def quoted? (word : List Char) : Option (List Char) :=
  match word with
  | '\'' :: rest => if rest.getLast? = some '\'' then some rest.dropLast else none
  | _ => none

/-- The script that one word stands for. The kinds of word overlap; the first
    one in the order of the tests decides. -/
def readWord (word : List Char) : Except ReadError Script :=
  match decimal? word with
  | some value =>
    if value.natAbs ≤ maxDecimal then .ok (Script.pushNumber value)
    else .error (.decimalOutOfRange (String.ofList word))
  | none =>
    match literal? word with
    | some bytes => .ok bytes
    | none =>
      match quoted? word with
      | some text => .ok (Script.pushData (text.flatMap String.utf8EncodeChar))
      | none =>
        match opcode? word with
        | some opcode => .ok [opcode]
        | none =>
          match Hex.decode word with
          | some data => .ok (Script.pushValue data)
          | none => .error (.unknownWord (String.ofList word))

/-- The scripts of several words one after the other. -/
def readWords : List (List Char) → Except ReadError Script
  | [] => .ok []
  | word :: rest =>
    match readWord word with
    | .error e => .error e
    | .ok first =>
      match readWords rest with
      | .error e => .error e
      | .ok others => .ok (first ++ others)

/-- Reads a script written as words with blanks between them. The first word
    that cannot be read is reported. -/
def read (text : String) : Except ReadError Script :=
  readWords (Text.words text.toList)

end SpendCheck.Assembly
