import SpendCheck.Machine.Step

namespace SpendCheck

/-- Evaluates scripts with the same flags and checker. It keeps the open
    conditionals and the operation count that the last evaluation left. -/
structure Evaluator where
  flags : Flags
  checker : Checker
  conditions : List Bool := []
  opCount : Nat := 0

/-- What one or several evaluations leave. -/
structure Evaluation where
  result : Except ScriptError Unit
  stack : Stack
  calls : List Call
  evaluator : Evaluator

/-- Goes on after an evaluation that succeeded; the questions to the checker add
    up. -/
def Evaluation.andThen (first : Evaluation) (next : Evaluator → Stack → Evaluation) :
    Evaluation :=
  match first.result with
  | .error _ => first
  | .ok () =>
    let second := next first.evaluator first.stack
    { second with calls := first.calls ++ second.calls }

namespace Evaluator

/-- An evaluation that asks nothing and leaves a given stack. -/
def leave (evaluator : Evaluator) (result : Except ScriptError Unit) (stack : Stack) :
    Evaluation :=
  ⟨result, stack, [], evaluator⟩

/-- The evaluator without what the last evaluation left. -/
def reset (evaluator : Evaluator) : Evaluator :=
  { evaluator with conditions := [], opCount := 0 }

/-- The machine at the start of a script. -/
def start (evaluator : Evaluator) (stack : Stack) : Machine where
  stack := stack
  conditions := evaluator.conditions
  opCount := evaluator.opCount

/-- Evaluates a script on a stack. A script that is too long leaves everything
    as it is. -/
def run (evaluator : Evaluator) (stack : Stack) (script : Script) : Evaluation :=
  if maxScriptSize < script.length then evaluator.leave (.error .scriptSize) stack
  else
    let outcome := (evaluator.reset.start stack).run ⟨evaluator.flags, evaluator.checker, script⟩
    let m := outcome.state
    { result := outcome.result
      stack := m.stack
      calls := m.calls
      evaluator := { evaluator with conditions := m.conditions, opCount := m.opCount } }

/-- Fails unless the top element is there and true. -/
def requireTrue (evaluator : Evaluator) (stack : Stack) : Evaluation :=
  evaluator.leave (if stack.isTrue then .ok () else .error .evalFalse) stack

end Evaluator

/-- Evaluates a single script. -/
def evalScript (flags : Flags) (checker : Checker) (stack : Stack) (script : Script) :
    Evaluation :=
  Evaluator.run { flags := flags, checker := checker } stack script

end SpendCheck
