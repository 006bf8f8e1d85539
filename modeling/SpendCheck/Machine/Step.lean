import SpendCheck.Machine.Arithmetic
import SpendCheck.Machine.Branching
import SpendCheck.Machine.CheckMultiSig
import SpendCheck.Machine.Rearrangement

namespace SpendCheck.Machine

/-- Moves the top element to the other stack. -/
def toAltStack (m : Machine) : Outcome Machine :=
  match m.stack with
  | [] => .failed .invalidStackOperation m
  | element :: rest => .done { m with stack := rest, altStack := element :: m.altStack }

/-- Moves the top element of the other stack back. -/
def fromAltStack (m : Machine) : Outcome Machine :=
  match m.altStack with
  | [] => .failed .invalidAltstackOperation m
  | element :: rest => { m with altStack := rest }.onStack (Stack.push element)

/-- The effect of an operation where it is executed. -/
def execute (context : Context) (m : Machine) : Operation → Outcome Machine
  | .number value => m.onStack (Stack.push (Number.encode value))
  | .nop => .done m
  | .branching kind => kind.apply m
  | .verify => m.onStack (Stack.verify .verify)
  | .fail => .failed .opReturn m
  | .toAltStack => m.toAltStack
  | .fromAltStack => m.fromAltStack
  | .stack kind => m.onStack kind.apply
  | .equal => m.onStack Stack.equal
  | .equalVerify => m.onStack fun stack => stack.equal.andThen (Stack.verify .equalVerify)
  | .unary kind => m.onStack kind.apply
  | .binary kind => m.onStack kind.apply
  | .numEqualVerify =>
    m.onStack fun stack =>
      (BinaryOperation.numEqual.apply stack).andThen (Stack.verify .numEqualVerify)
  | .within => m.onStack Stack.within
  | .hash kind => m.onStack kind.apply
  | .codeSeparator => .done { m with separator := m.position }
  | .checkSig => m.checkSig context
  | .checkSigVerify =>
    (m.checkSig context).andThen fun m => m.onStack (Stack.verify .checkSigVerify)
  | .checkMultiSig => m.checkMultiSig context
  | .checkMultiSigVerify =>
    (m.checkMultiSig context).andThen fun m => m.onStack (Stack.verify .checkMultiSigVerify)
  | .disabled => .failed .disabledOpcode m
  | .undefined => .failed .badOpcode m

/-- The effect of a push of data. The payload must not be too long even where it
    is not executed. -/
def pushPayload (payload : Bytes) (m : Machine) : Outcome Machine :=
  if maxElementSize < payload.length then .failed .pushSize m
  else if m.executes then m.onStack (Stack.push payload)
  else .done m

/-- The effect of an operation. Disabled ones fail and conditionals are followed
    also where nothing is executed. -/
def operate (context : Context) (operation : Operation) (m : Machine) : Outcome Machine :=
  match operation with
  | .disabled => .failed .disabledOpcode m
  | .branching kind => kind.apply m
  | operation => if m.executes then m.execute context operation else .done m

/-- The effect of an instruction, before the stacks are measured. -/
def perform (context : Context) (m : Machine) : Instruction → Outcome Machine
  | .push _ payload => m.pushPayload payload
  | .op opcode =>
    (if opcode.isCounted then m.countOperations 1 else .done m).andThen
      (operate context (Operation.ofOpcode opcode))

/-- Goes on by one instruction. -/
def step (context : Context) (m : Machine) (instruction : Instruction) : Outcome Machine :=
  ({ m with position := m.position + instruction.size }.perform context instruction).andThen
    checkDepth

/-- Goes on by several instructions, as long as none fails. -/
def steps (context : Context) : List Instruction → Machine → Outcome Machine
  | [], m => .done m
  | instruction :: rest, m => (m.step context instruction).andThen (steps context rest)

/-- Ends an evaluation: nothing may be left of the script, and no conditional may
    be open. -/
def finish (tail : Bytes) (m : Machine) : Outcome Machine :=
  if !tail.isEmpty then .failed .badOpcode m
  else if !m.conditions.isEmpty then .failed .unbalancedConditional m
  else .done m

/-- Evaluates the script of the context. -/
def run (context : Context) (m : Machine) : Outcome Machine :=
  (m.steps context context.script.instructions).andThen (finish context.script.tail)

end SpendCheck.Machine
