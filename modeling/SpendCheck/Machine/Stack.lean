import SpendCheck.Machine.Outcome
import SpendCheck.Script.Basic
import SpendCheck.Script.Number

namespace SpendCheck

/-- A stack of elements, the top one first. -/
abbrev Stack := List Bytes

namespace Stack

/-- Places an element on top, unless it is too long. -/
def push (element : Bytes) (stack : Stack) : Outcome Stack :=
  if maxElementSize < element.length then .failed .pushSize stack else .done (element :: stack)

theorem push_of_le {element : Bytes} (h : element.length ≤ maxElementSize) (stack : Stack) :
    push element stack = .done (element :: stack) :=
  if_neg (Nat.not_lt.2 h)

theorem push_of_lt {element : Bytes} (h : maxElementSize < element.length) (stack : Stack) :
    push element stack = .failed .pushSize stack :=
  if_pos h

/-- Takes the top element away. -/
def pop : Stack → Except ScriptError (Bytes × Stack)
  | [] => .error .invalidStackOperation
  | element :: rest => .ok (element, rest)

/-- The top element of a stack with more elements than so many. -/
theorem exists_cons_of_le {count : Nat} {stack : Stack} (h : count + 1 ≤ stack.length) :
    ∃ element rest, stack = element :: rest ∧ count ≤ rest.length := by
  cases stack with
  | nil => exact absurd h (Nat.not_succ_le_zero count)
  | cons element rest => exact ⟨element, rest, rfl, Nat.le_of_succ_le_succ h⟩

/-- The element at a depth, counted from 1 at the top. -/
def top (depth : Nat) (stack : Stack) : Except ScriptError Bytes :=
  match stack[depth - 1]? with
  | none => .error .invalidStackOperation
  | some element => .ok element

/-- Takes the top element away and fails with a given reason if it was false. -/
def verify (error : ScriptError) : Stack → Outcome Stack
  | [] => .failed .invalidStackOperation []
  | element :: rest => if Number.truthy element then .done rest else .failed error rest

/-- The top element is there and true. -/
def isTrue (stack : Stack) : Bool :=
  stack.head?.any Number.truthy

end Stack

end SpendCheck
