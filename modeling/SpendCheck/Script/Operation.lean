import SpendCheck.Script.Basic

namespace SpendCheck

/-- The opcodes that open, turn and close a conditional. They act also where
    nothing else is executed. -/
inductive Branching where
  | ifTrue
  | ifFalse
  | otherwise
  | endIf
deriving DecidableEq, Repr

/-- Rearrangements of the stack. -/
inductive StackOperation where
  | drop2
  | dup2
  | dup3
  | over2
  | rot2
  | swap2
  | ifDup
  | depth
  | drop
  | dup
  | nip
  | over
  | pick
  | roll
  | rot
  | swap
  | tuck
  | size
deriving DecidableEq, Repr

/-- Arithmetic on one number. -/
inductive UnaryOperation where
  | add1
  | sub1
  | negate
  | abs
  | not
  | notEqual0
deriving DecidableEq, Repr

/-- Arithmetic on two numbers. -/
inductive BinaryOperation where
  | add
  | sub
  | boolAnd
  | boolOr
  | numEqual
  | numNotEqual
  | lessThan
  | greaterThan
  | lessThanOrEqual
  | greaterThanOrEqual
  | min
  | max
deriving DecidableEq, Repr

/-- The hash functions of scripts. -/
inductive HashOperation where
  | ripemd160
  | sha1
  | sha256
  | hash160
  | hash256
deriving DecidableEq, Repr

/-- What an opcode does that is not a push of data. -/
inductive Operation where
  /-- Pushes a small number. -/
  | number (value : Int)
  /-- Does nothing. -/
  | nop
  | branching (kind : Branching)
  /-- Fails unless the top element is true. -/
  | verify
  /-- Fails. -/
  | fail
  | toAltStack
  | fromAltStack
  | stack (kind : StackOperation)
  | equal
  | equalVerify
  | unary (kind : UnaryOperation)
  | binary (kind : BinaryOperation)
  | numEqualVerify
  | within
  | hash (kind : HashOperation)
  | codeSeparator
  | checkSig
  | checkSigVerify
  | checkMultiSig
  | checkMultiSigVerify
  /-- Fails a script merely by appearing in it. -/
  | disabled
  /-- Fails where it is executed. -/
  | undefined
deriving DecidableEq, Repr

/-- The meaning of an opcode above the pushes of data. -/
def Operation.ofOpcode (opcode : Opcode) : Operation :=
  if opcode = Opcode.negativeOne then number (-1)
  else if Opcode.reserved < opcode ∧ opcode ≤ Opcode.sixteen then
    number (opcode - Opcode.reserved).toNat
  else
    match opcode with
    | 0x61 => nop
    | 0x63 => branching .ifTrue
    | 0x64 => branching .ifFalse
    | 0x65 | 0x66 => disabled
    | 0x67 => branching .otherwise
    | 0x68 => branching .endIf
    | 0x69 => verify
    | 0x6a => fail
    | 0x6b => toAltStack
    | 0x6c => fromAltStack
    | 0x6d => stack .drop2
    | 0x6e => stack .dup2
    | 0x6f => stack .dup3
    | 0x70 => stack .over2
    | 0x71 => stack .rot2
    | 0x72 => stack .swap2
    | 0x73 => stack .ifDup
    | 0x74 => stack .depth
    | 0x75 => stack .drop
    | 0x76 => stack .dup
    | 0x77 => stack .nip
    | 0x78 => stack .over
    | 0x79 => stack .pick
    | 0x7a => stack .roll
    | 0x7b => stack .rot
    | 0x7c => stack .swap
    | 0x7d => stack .tuck
    | 0x7e | 0x7f | 0x80 | 0x81 => disabled
    | 0x82 => stack .size
    | 0x83 | 0x84 | 0x85 | 0x86 => disabled
    | 0x87 => equal
    | 0x88 => equalVerify
    | 0x8b => unary .add1
    | 0x8c => unary .sub1
    | 0x8d | 0x8e => disabled
    | 0x8f => unary .negate
    | 0x90 => unary .abs
    | 0x91 => unary .not
    | 0x92 => unary .notEqual0
    | 0x93 => binary .add
    | 0x94 => binary .sub
    | 0x95 | 0x96 | 0x97 | 0x98 | 0x99 => disabled
    | 0x9a => binary .boolAnd
    | 0x9b => binary .boolOr
    | 0x9c => binary .numEqual
    | 0x9d => numEqualVerify
    | 0x9e => binary .numNotEqual
    | 0x9f => binary .lessThan
    | 0xa0 => binary .greaterThan
    | 0xa1 => binary .lessThanOrEqual
    | 0xa2 => binary .greaterThanOrEqual
    | 0xa3 => binary .min
    | 0xa4 => binary .max
    | 0xa5 => within
    | 0xa6 => hash .ripemd160
    | 0xa7 => hash .sha1
    | 0xa8 => hash .sha256
    | 0xa9 => hash .hash160
    | 0xaa => hash .hash256
    | 0xab => codeSeparator
    | 0xac => checkSig
    | 0xad => checkSigVerify
    | 0xae => checkMultiSig
    | 0xaf => checkMultiSigVerify
    | 0xb0 | 0xb1 | 0xb2 | 0xb3 | 0xb4 | 0xb5 | 0xb6 | 0xb7 | 0xb8 | 0xb9 => nop
    | _ => undefined

/-- The opcode counts as an operation. -/
def Opcode.isCounted (opcode : Opcode) : Bool :=
  Opcode.sixteen < opcode

end SpendCheck
