import SpendCheck.Spend.Unlocking

namespace SpendCheck

/-- What a user of an evaluator asks for. -/
inductive Request where
  /-- The evaluation of a script on the stack of the user, or on another one that takes
      its place. -/
  | run (other : Option Stack) (script : Script)
  /-- A verification, which has a stack of its own. -/
  | verify (unlocking locking : Script)

/-- What a user gets to see: the result, the own stack as it is then, and the questions to
    the checker. -/
structure Answer where
  result : Except ScriptError Unit
  stack : Stack
  calls : List Call

/-- What an evaluation shows its user. -/
def Evaluation.answer (evaluation : Evaluation) : Answer :=
  ⟨evaluation.result, evaluation.stack, evaluation.calls⟩

namespace Evaluator

/-- Carries out a request for a user who holds a stack. -/
def handle (evaluator : Evaluator) (stack : Stack) : Request → Evaluation
  | .run other script => evaluator.run (other.getD stack) script
  | .verify unlocking locking => { evaluator.verify unlocking locking with stack := stack }

/-- Carries out requests one after the other, also after one that fails. -/
def serve (evaluator : Evaluator) (stack : Stack) : List Request → List Answer
  | [] => []
  | request :: rest =>
    let evaluation := evaluator.handle stack request
    evaluation.answer :: evaluation.evaluator.serve evaluation.stack rest

end Evaluator

end SpendCheck
