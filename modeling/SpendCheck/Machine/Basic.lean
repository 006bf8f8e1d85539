import SpendCheck.Machine.Checker
import SpendCheck.Machine.Stack
import SpendCheck.Policy.Flags
import SpendCheck.Script.Instruction

namespace SpendCheck

/-- The largest number of elements on both stacks together. -/
def maxStackDepth : Nat := 1000

/-- The largest number of counted operations in one evaluation. -/
def maxOperations : Nat := 201

/-- The largest number of keys that one operation may list. -/
def maxKeys : Nat := 20

/-- What stays the same while a script is evaluated. -/
structure Context where
  flags : Flags
  checker : Checker
  script : Script

/-- What changes while a script is evaluated. -/
structure Machine where
  stack : Stack
  altStack : Stack := []
  /-- The open conditionals, the innermost first: whether each of them executes. -/
  conditions : List Bool := []
  /-- The operations counted so far. -/
  opCount : Nat := 0
  /-- Where the last executed separator ends. -/
  separator : Nat := 0
  /-- Where the last instruction ends. -/
  position : Nat := 0
  /-- The questions put to the checker so far, the oldest first. -/
  calls : List Call := []
deriving Repr

namespace Machine

/-- No open conditional prevents execution. -/
def executes (m : Machine) : Bool :=
  m.conditions.all id

/-- The number of elements on both stacks. -/
def depth (m : Machine) : Nat :=
  m.stack.length + m.altStack.length

/-- The part of the script that signatures commit to. -/
def scriptCode (context : Context) (m : Machine) : Script :=
  context.script.drop m.separator

/-- Applies an operation of the stack alone. -/
def onStack (m : Machine) (operation : Stack → Outcome Stack) : Outcome Machine :=
  (operation m.stack).map fun stack => { m with stack := stack }

theorem onStack_of_done {m : Machine} {operation : Stack → Outcome Stack} {stack : Stack}
    (h : operation m.stack = .done stack) : m.onStack operation = .done { m with stack := stack } := by
  rw [onStack, h]
  rfl

theorem onStack_of_failed {m : Machine} {operation : Stack → Outcome Stack} {e : ScriptError}
    (h : operation m.stack = .failed e m.stack) : m.onStack operation = .failed e m := by
  rw [onStack, h]
  rfl

theorem onStack_result (m : Machine) (operation : Stack → Outcome Stack) :
    (m.onStack operation).result = (operation m.stack).result := by
  unfold onStack
  cases operation m.stack <;> rfl

/-- Counts operations; the count stays even when it exceeds the limit. -/
def countOperations (count : Nat) (m : Machine) : Outcome Machine :=
  let counted := { m with opCount := m.opCount + count }
  if maxOperations < counted.opCount then .failed .opCount counted else .done counted

/-- Fails if there are too many elements. -/
def checkDepth (m : Machine) : Outcome Machine :=
  if maxStackDepth < m.depth then .failed .stackSize m else .done m

end Machine

end SpendCheck
