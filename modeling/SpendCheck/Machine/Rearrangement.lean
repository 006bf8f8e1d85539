import SpendCheck.Machine.Stack
import SpendCheck.Script.Operation

namespace SpendCheck

open Stack

/-- Takes the top element away as an index into the elements below it and goes
    on with the stack below it, the index and the element there. -/
def Stack.select (next : Stack → Nat → Bytes → Outcome Stack) : Stack → Outcome Stack
  | index :: stack =>
    match Number.decode Number.maxSize index with
    | .error e => .failed e stack
    | .ok depth =>
      if depth < 0 then .failed .invalidStackOperation stack
      else
        match stack[depth.toNat]? with
        | none => .failed .invalidStackOperation stack
        | some element => next stack depth.toNat element
  | [] => .failed .invalidStackOperation []

/-- The effect of a rearrangement. Without enough elements the stack stays as it
    is. What is pushed is measured, also where it is moved from a depth that is
    looked up; what is moved by fixed places is not, and neither is the copy
    below the second element. -/
def StackOperation.apply : StackOperation → Stack → Outcome Stack
  | .drop2, _ :: _ :: rest => .done rest
  | .dup2, stack@(b :: a :: _) => (push a stack).andThen (push b)
  | .dup3, stack@(c :: b :: a :: _) => ((push a stack).andThen (push b)).andThen (push c)
  | .over2, stack@(_ :: _ :: b :: a :: _) => (push a stack).andThen (push b)
  | .rot2, f :: e :: d :: c :: b :: a :: rest => .done (b :: a :: f :: e :: d :: c :: rest)
  | .swap2, d :: c :: b :: a :: rest => .done (b :: a :: d :: c :: rest)
  | .ifDup, stack@(a :: _) => if Number.truthy a then push a stack else .done stack
  | .depth, stack => push (Number.encode stack.length) stack
  | .drop, _ :: rest => .done rest
  | .dup, stack@(a :: _) => push a stack
  | .nip, b :: _ :: rest => .done (b :: rest)
  | .over, stack@(_ :: a :: _) => push a stack
  | .pick, stack@(_ :: _ :: _) => stack.select fun below _ element => push element below
  | .roll, stack@(_ :: _ :: _) =>
    stack.select fun below depth element => push element (below.eraseIdx depth)
  | .rot, c :: b :: a :: rest => .done (a :: c :: b :: rest)
  | .swap, b :: a :: rest => .done (a :: b :: rest)
  | .tuck, b :: a :: rest => .done (b :: a :: b :: rest)
  | .size, stack@(a :: _) => push (Number.encode a.length) stack
  | _, stack => .failed .invalidStackOperation stack

end SpendCheck
