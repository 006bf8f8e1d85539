import SpendCheck.Proofs.Spend.Agreement
import SpendCheck.Spend.Session

namespace SpendCheck

/-- Carries out requests one after the other, each with an evaluator of its own. -/
def serveAfresh (flags : Flags) (checker : Checker) (stack : Stack) : List Request → List Answer
  | [] => []
  | request :: rest =>
    let evaluation := Evaluator.handle { flags := flags, checker := checker } stack request
    evaluation.answer :: serveAfresh flags checker evaluation.stack rest

/-- The stack that a user holds after some answers, who began with the given one. -/
def Answer.stackAfter (stack : Stack) (answers : List Answer) : Stack :=
  (answers.getLast?.map Answer.stack).getD stack

theorem Answer.stackAfter_cons (stack : Stack) (answer : Answer) (answers : List Answer) :
    stackAfter stack (answer :: answers) = stackAfter answer.stack answers := by
  unfold stackAfter
  cases h : answers.getLast? <;> simp [List.getLast?_cons, h]

namespace Evaluator

variable {first second : Evaluator}

/-- A verification leaves the flags and the checker as they were. -/
theorem reset_verify (evaluator : Evaluator) (unlocking locking : Script) :
    (evaluator.verify unlocking locking).evaluator.reset = evaluator.reset := by
  refine verify_induction (P := fun evaluation => evaluation.evaluator.reset = evaluator.reset)
    evaluator unlocking locking (fun _ _ => rfl) (fun _ _ _ hleft _ => hleft)
    (fun left stack script hleft => (reset_run left stack script).trans hleft) ?_
  intro first next hfirst hnext
  unfold Evaluation.andThen
  split
  · exact hfirst
  · exact hnext

theorem reset_handle (evaluator : Evaluator) (stack : Stack) (request : Request) :
    (evaluator.handle stack request).evaluator.reset = evaluator.reset := by
  cases request with
  | run other script => exact reset_run evaluator _ script
  | verify unlocking locking => exact reset_verify evaluator unlocking locking

/-! Requests do not notice what is left in the evaluator. -/

theorem agrees_of_reset_eq (h : first.reset = second.reset) : first.Agrees second := by
  intro script
  have hcontext : first.context script = second.context script :=
    congrArg (fun evaluator => evaluator.context script) h
  rw [hcontext]
  exact ⟨rfl, fun _ _ _ => rfl, rfl⟩

theorem verify_agrees_of_reset_eq (h : first.reset = second.reset) (unlocking locking : Script) :
    (first.verify unlocking locking).Agrees (second.verify unlocking locking) := by
  have hflags := flags_eq_of_reset_eq h
  have hredeems : first.redeems locking = second.redeems locking := by
    simp only [redeems, hflags]
  refine (agrees_of_reset_eq h).verify ?_ hredeems
  simp only [Permits, hflags, hredeems]

/-- Evaluators that differ only in what a request resets give the same answer. -/
theorem handle_answer_of_reset_eq (h : first.reset = second.reset) (stack : Stack) (request : Request) :
    (first.handle stack request).answer = (second.handle stack request).answer := by
  cases request with
  | run other script =>
    obtain ⟨hresult, hstack, hcalls, -⟩ := (agrees_of_reset_eq h).run (other.getD stack) script
    simp only [handle, Evaluation.answer, hresult, hstack, hcalls]
  | verify unlocking locking =>
    obtain ⟨hresult, -, hcalls, -⟩ := verify_agrees_of_reset_eq h unlocking locking
    simp only [handle, Evaluation.answer, hresult, hcalls]

/-- Evaluators that are the same after a reset answer the same requests in the same way. -/
theorem serve_of_reset_eq (h : first.reset = second.reset) (stack : Stack) (requests : List Request) :
    first.serve stack requests = second.serve stack requests := by
  induction requests generalizing first second stack with
  | nil => rfl
  | cons request rest ih =>
    have hanswer := handle_answer_of_reset_eq h stack request
    have hstack : (first.handle stack request).stack = (second.handle stack request).stack :=
      congrArg Answer.stack hanswer
    have hleft : (first.handle stack request).evaluator.reset =
        (second.handle stack request).evaluator.reset := by
      rw [reset_handle, reset_handle, h]
    simp only [serve, hanswer, hstack, ih hleft]

variable (evaluator : Evaluator) (stack : Stack) (requests : List Request)

theorem serve_cons (request : Request) :
    evaluator.serve stack (request :: requests) = (evaluator.handle stack request).answer ::
      evaluator.serve (evaluator.handle stack request).stack requests :=
  congrArg _ (serve_of_reset_eq (reset_handle evaluator stack request) _ requests)

theorem handle_answer_reset (request : Request) :
    (evaluator.handle stack request).answer = (evaluator.reset.handle stack request).answer :=
  handle_answer_of_reset_eq (reset_reset evaluator).symm stack request

/-- What one evaluator answers is what fresh ones would answer. -/
theorem serve_eq_serveAfresh :
    evaluator.serve stack requests = serveAfresh evaluator.flags evaluator.checker stack requests := by
  induction requests generalizing stack with
  | nil => rfl
  | cons request rest ih =>
    have hstack : (evaluator.handle stack request).stack = (evaluator.reset.handle stack request).stack :=
      congrArg Answer.stack (handle_answer_reset evaluator stack request)
    rw [serve_cons, ih, handle_answer_reset, hstack]
    rfl

/-- What a user is told of a verification, who goes on with the own stack. -/
def verifyAnswer (evaluator : Evaluator) (stack : Stack) (unlocking locking : Script) : Answer :=
  let evaluation := verifyScript evaluator.flags evaluator.checker unlocking locking
  ⟨evaluation.result, stack, evaluation.calls⟩

theorem serve_cons_verify (unlocking locking : Script) :
    evaluator.serve stack (.verify unlocking locking :: requests) =
      evaluator.verifyAnswer stack unlocking locking :: evaluator.serve stack requests := by
  rw [serve_cons, handle_answer_reset]
  rfl

/-- A verification between other requests adds its own answer and changes none of the others. -/
theorem serve_insertIdx_verify (n : Nat) (unlocking locking : Script) :
    evaluator.serve stack (requests.insertIdx n (.verify unlocking locking)) =
      (evaluator.serve stack requests).insertIdx n
        (evaluator.verifyAnswer (Answer.stackAfter stack ((evaluator.serve stack requests).take n))
          unlocking locking) := by
  induction n generalizing stack requests with
  | zero =>
    rw [List.insertIdx_zero, List.insertIdx_zero, serve_cons_verify]
    rfl
  | succ n ih =>
    cases requests with
    | nil => rfl
    | cons request rest =>
      rw [List.insertIdx_succ_cons, serve_cons, serve_cons, List.insertIdx_succ_cons, ih,
        List.take_succ_cons, Answer.stackAfter_cons]
      rfl

/-- Nothing leaks from one request to the next. An evaluator answers any requests as if
each had an evaluator of its own with the same flags and checker, in its result, in the
stack that it leaves and in its questions, whatever earlier evaluations left in it and
however they ended. And a verification may be put in anywhere: it has the answer of a
verification on its own, leaves the stack of the user as it is at that place, and
changes none of the other answers. -/
theorem requests_independent :
    evaluator.serve stack requests = serveAfresh evaluator.flags evaluator.checker stack requests ∧
    ∀ n unlocking locking,
      evaluator.serve stack (requests.insertIdx n (.verify unlocking locking)) =
        (evaluator.serve stack requests).insertIdx n
          (evaluator.verifyAnswer (Answer.stackAfter stack ((evaluator.serve stack requests).take n))
            unlocking locking) := by
  refine ⟨evaluator.serve_eq_serveAfresh stack requests, ?_⟩
  intro n unlocking locking
  exact evaluator.serve_insertIdx_verify stack requests n unlocking locking

end Evaluator

end SpendCheck
