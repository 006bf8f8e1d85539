import SpendCheck.Proofs.Machine.Agreement
import SpendCheck.Proofs.Spend.SignaturePolicy

namespace SpendCheck.Evaluator

variable {first second : Evaluator} {unlocking locking : Script}

theorem Agrees.requireTrue (h : first.Agrees second) (stack : Stack) :
    (first.requireTrue stack).Agrees (second.requireTrue stack) :=
  h.leave _ stack

theorem Agrees.runTrue (h : first.Agrees second) (stack : Stack) (script : Script) :
    ((first.run stack script).andThen Evaluator.requireTrue).Agrees
      ((second.run stack script).andThen Evaluator.requireTrue) :=
  (h.run stack script).andThen fun _ _ => Agrees.requireTrue

theorem Agrees.redeem (h : first.Agrees second) (stack : Stack) :
    (first.redeem stack).Agrees (second.redeem stack) := by
  cases stack with
  | nil => exact h.leave _ []
  | cons script below => exact h.runTrue below script

/-- Evaluators that agree verify alike what both of them permit or both refuse, where
both evaluate the script that was pushed last or neither does. -/
theorem Agrees.verify (h : first.Agrees second)
    (hpermits : first.Permits unlocking locking ↔ second.Permits unlocking locking)
    (hredeems : first.redeems locking = second.redeems locking) :
    (first.verify unlocking locking).Agrees (second.verify unlocking locking) := by
  by_cases hpermitted : second.Permits unlocking locking
  · rw [verify_of_permits hpermitted, verify_of_permits (hpermits.2 hpermitted), hredeems]
    refine (h.run [] unlocking).andThen fun _ _ h unlocked => ?_
    refine (h.runTrue unlocked locking).andThen fun _ _ h stack => ?_
    split
    · exact h.redeem unlocked
    · exact h.leave _ stack
  · rw [verify_of_not_permits hpermitted, verify_of_not_permits (mt hpermits.1 hpermitted)]
    exact h.leave _ []

end SpendCheck.Evaluator
