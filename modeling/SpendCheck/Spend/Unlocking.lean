import SpendCheck.Machine.Evaluator
import SpendCheck.Script.Template

namespace SpendCheck

namespace Evaluator

/-- Whether the script pushed last is evaluated too. -/
def redeems (evaluator : Evaluator) (locking : Script) : Bool :=
  evaluator.flags.has .p2sh && locking.isPayToScriptHash

/-- Evaluates the element pushed last as a script on the elements below it, and
    asks for a true element on top. -/
def redeem (evaluator : Evaluator) (stack : Stack) : Evaluation :=
  match stack with
  | [] => evaluator.leave (.error .invalidStackOperation) []
  | script :: below => (evaluator.run below script).andThen requireTrue

/-- Evaluates an unlocking script and then a locking script on the stack that it
    leaves, and asks for a true element on top. Where the locking script commits
    to the hash of a script, the unlocking script must only push, and the script
    it pushes last is evaluated on its stack as well. -/
def verify (evaluator : Evaluator) (unlocking locking : Script) : Evaluation :=
  let redeems := evaluator.redeems locking
  if (evaluator.flags.has .sigPushOnly || redeems) && !unlocking.isPushOnly then
    evaluator.leave (.error .sigPushOnly) []
  else
    (evaluator.run [] unlocking).andThen fun evaluator unlocked =>
      ((evaluator.run unlocked locking).andThen requireTrue).andThen fun evaluator stack =>
        if redeems then evaluator.redeem unlocked else evaluator.leave (.ok ()) stack

end Evaluator

/-- Verifies an unlocking script against a locking script. -/
def verifyScript (flags : Flags) (checker : Checker) (unlocking locking : Script) : Evaluation :=
  Evaluator.verify { flags := flags, checker := checker } unlocking locking

end SpendCheck
