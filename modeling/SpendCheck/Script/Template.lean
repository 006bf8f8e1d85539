import SpendCheck.Hash.Digest
import SpendCheck.Script.Push

namespace SpendCheck.Script

/-- A piece that is appended to a script under construction. -/
inductive Piece where
  | opcode (code : Opcode)
  | value (data : Bytes)
  | number (value : Int)
  | raw (bytes : Bytes)
deriving Repr

/-- The bytes that a piece appends. -/
def Piece.bytes : Piece → Bytes
  | .opcode code => [code]
  | .value data => pushValue data
  | .number n => pushNumber n
  | .raw bytes => bytes

/-- Appends pieces to a script. -/
def build (start : Script) (pieces : List Piece) : Script :=
  pieces.foldl (fun script piece => script ++ piece.bytes) start

/-- Every instruction is whole and pushes data or a small number, where the one
    reserved opcode among these counts as a push. -/
def isPushOnly (script : Script) : Bool :=
  (instructions script).all (·.opcode ≤ Opcode.sixteen) && (tail script).isEmpty

/-- The script asks for an element with a given 20-byte hash and nothing else. -/
def isPayToScriptHash (script : Script) : Bool :=
  script.length == 23 && script[0]? == some Opcode.hash160 && script[1]? == some 0x14 &&
    script[22]? == some Opcode.equal

/-- The hash that commits to a script. -/
def scriptId (script : Script) : Bytes :=
  Hash.hash160 script

/-- The locking script that commits to a script. -/
def toPayToScriptHash (script : Script) : Script :=
  build [] [.opcode Opcode.hash160, .value script.scriptId, .opcode Opcode.equal]

end SpendCheck.Script
