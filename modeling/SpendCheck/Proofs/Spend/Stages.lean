import SpendCheck.Spend.Unlocking

namespace SpendCheck

namespace Evaluation

/-- The result of an evaluation that must also leave a true element on top. -/
def verdict (e : Evaluation) : Except ScriptError Unit :=
  match e.result with
  | .error cause => .error cause
  | .ok () => if e.stack.isTrue then .ok () else .error .evalFalse

theorem verdict_eq_ok_iff {e : Evaluation} :
    e.verdict = .ok () ↔ e.result = .ok () ∧ e.stack.isTrue = true := by
  unfold verdict
  cases e.result <;> simp

variable {first : Evaluation} {next : Evaluator → Stack → Evaluation}

theorem andThen_result_of_ok (h : first.result = .ok ()) :
    (first.andThen next).result = (next first.evaluator first.stack).result := by
  simp [andThen, h]

theorem andThen_result_of_error {e : ScriptError} (h : first.result = .error e) :
    (first.andThen next).result = .error e := by
  simp [andThen, h]

theorem andThen_result_eq_ok_iff :
    (first.andThen next).result = .ok () ↔
      first.result = .ok () ∧ (next first.evaluator first.stack).result = .ok () := by
  cases h : first.result with
  | error e => simp [andThen_result_of_error h]
  | ok _ => simp [andThen_result_of_ok h]

end Evaluation

section Start

variable {flags : Flags} {checker : Checker} {stack : Stack} {script : Script}

/-- An evaluation runs the machine from its first state, unless the script is
too long. -/
theorem evalScript_eq (h : script.length ≤ maxScriptSize) :
    evalScript flags checker stack script =
      { result := (Machine.run ⟨flags, checker, script⟩ { stack := stack }).result
        stack := (Machine.run ⟨flags, checker, script⟩ { stack := stack }).state.stack
        calls := (Machine.run ⟨flags, checker, script⟩ { stack := stack }).state.calls
        evaluator :=
          { flags := flags
            checker := checker
            conditions := (Machine.run ⟨flags, checker, script⟩ { stack := stack }).state.conditions
            opCount := (Machine.run ⟨flags, checker, script⟩ { stack := stack }).state.opCount } } :=
  if_neg (Nat.not_lt.2 h)

end Start

namespace Evaluator

variable (evaluator : Evaluator) (stack : Stack) (script : Script)

@[simp] theorem leave_result (result : Except ScriptError Unit) :
    (evaluator.leave result stack).result = result := rfl

@[simp] theorem run_evaluator_flags : (evaluator.run stack script).evaluator.flags = evaluator.flags := by
  unfold run
  split <;> rfl

@[simp] theorem run_evaluator_checker :
    (evaluator.run stack script).evaluator.checker = evaluator.checker := by
  unfold run
  split <;> rfl

/-! An evaluation starts afresh: what the last one left behind does not show in
its result, in its stack or in its questions. -/

@[simp] theorem run_result : (evaluator.run stack script).result =
    (evalScript evaluator.flags evaluator.checker stack script).result := by
  unfold evalScript run
  split <;> rfl

@[simp] theorem run_stack : (evaluator.run stack script).stack =
    (evalScript evaluator.flags evaluator.checker stack script).stack := by
  unfold evalScript run
  split <;> rfl

@[simp] theorem run_calls : (evaluator.run stack script).calls =
    (evalScript evaluator.flags evaluator.checker stack script).calls := by
  unfold evalScript run
  split <;> rfl

/-! What evaluations leave in the evaluator is all that it has more than before. -/

theorem reset_reset : evaluator.reset.reset = evaluator.reset := rfl

theorem flags_eq_of_reset_eq {first second : Evaluator} (h : first.reset = second.reset) :
    first.flags = second.flags :=
  congrArg (fun evaluator => evaluator.flags) h

theorem reset_run : (evaluator.run stack script).evaluator.reset = evaluator.reset := by
  unfold run
  split <;> rfl

@[simp] theorem andThen_requireTrue_evaluator (first : Evaluation) :
    (first.andThen requireTrue).evaluator = first.evaluator := by
  cases h : first.result <;> simp [Evaluation.andThen, h, requireTrue, leave]

/-- A verification is made of evaluations of scripts and of what may end it. What holds
of these, and is kept where one follows another, holds of the verification. The
evaluators on the way differ from the first one only in what evaluations left there. -/
theorem verify_induction {P : Evaluation → Prop} (unlocking locking : Script)
    (hrefused : (evaluator.flags.has .sigPushOnly || evaluator.redeems locking) = true →
      unlocking.isPushOnly = false → P (evaluator.leave (.error .sigPushOnly) []))
    (hleave : ∀ (left : Evaluator) (result : Except ScriptError Unit) (stack : Stack),
      left.reset = evaluator.reset →
      (∀ e, result = .error e → e = .evalFalse ∨ e = .invalidStackOperation) →
      P (left.leave result stack))
    (hrun : ∀ (left : Evaluator) (stack : Stack) (script : Script), left.reset = evaluator.reset →
      P (left.run stack script))
    (handThen : ∀ first next, P first → P (next first.evaluator first.stack) →
      P (first.andThen next)) :
    P (evaluator.verify unlocking locking) := by
  have htrue : ∀ (left : Evaluator) (stack : Stack) (script : Script), left.reset = evaluator.reset →
      P ((left.run stack script).andThen requireTrue) := by
    intro left stack script hleft
    refine handThen _ _ (hrun left stack script hleft) ?_
    refine hleave _ _ _ ((reset_run left stack script).trans hleft) fun e he => ?_
    split at he <;> cases he
    exact .inl rfl
  unfold verify
  simp only
  split
  · next hrefuses =>
    obtain ⟨hmust, hother⟩ := Bool.and_eq_true_iff.1 hrefuses
    exact hrefused hmust (by simpa using hother)
  · have hunlocked := reset_run evaluator [] unlocking
    refine handThen _ _ (hrun evaluator [] unlocking rfl) ?_
    refine handThen _ _ (htrue _ _ locking hunlocked) ?_
    rw [andThen_requireTrue_evaluator]
    have hlocked := (reset_run (evaluator.run [] unlocking).evaluator
      (evaluator.run [] unlocking).stack locking).trans hunlocked
    split
    · unfold redeem
      split
      · exact hleave _ _ _ hlocked fun e he => .inr (Except.error.inj he).symm
      · exact htrue _ _ _ hlocked
    · exact hleave _ _ _ hlocked fun e he => by cases he

theorem andThen_requireTrue_result (first : Evaluation) :
    (first.andThen requireTrue).result = first.verdict := by
  unfold Evaluation.verdict
  cases h : first.result with
  | error e => exact Evaluation.andThen_result_of_error h
  | ok _ => exact Evaluation.andThen_result_of_ok h

theorem run_verdict : (evaluator.run stack script).verdict =
    (evalScript evaluator.flags evaluator.checker stack script).verdict := by
  simp only [Evaluation.verdict, run_result, run_stack]

/-- The script that was pushed last decides with its own verdict. -/
theorem redeem_cons_result : (evaluator.redeem (script :: stack)).result =
    (evalScript evaluator.flags evaluator.checker stack script).verdict := by
  rw [redeem, andThen_requireTrue_result, run_verdict]

/-- The script that was pushed last has to succeed on the elements below it. -/
theorem redeem_result_eq_ok_iff :
    (evaluator.redeem stack).result = .ok () ↔
      ∃ script below, stack = script :: below ∧
        (evalScript evaluator.flags evaluator.checker below script).verdict = .ok () := by
  cases stack with
  | nil => simp [redeem]
  | cons script below =>
    rw [redeem_cons_result]
    constructor
    · intro h
      exact ⟨script, below, rfl, h⟩
    · rintro ⟨_, _, hstack, h⟩
      cases hstack
      exact h

/-- A verification succeeds exactly when the unlocking script keeps to pushes
where it must, it succeeds, the locking script after it leaves a true element,
and the script that the last push holds, where it is asked for, does so too on
the stack that the unlocking script left. -/
theorem verify_result_eq_ok_iff {unlocking locking : Script} :
    (evaluator.verify unlocking locking).result = .ok () ↔
      (evaluator.flags.has .sigPushOnly = true ∨ evaluator.redeems locking = true →
        unlocking.isPushOnly = true) ∧
      ∃ unlocked, evalScript evaluator.flags evaluator.checker [] unlocking = unlocked ∧
        unlocked.result = .ok () ∧
        (evalScript evaluator.flags evaluator.checker unlocked.stack locking).verdict = .ok () ∧
        (evaluator.redeems locking = true →
          ∃ script below, unlocked.stack = script :: below ∧
            (evalScript evaluator.flags evaluator.checker below script).verdict = .ok ()) := by
  unfold verify
  generalize evaluator.redeems locking = redeems
  by_cases hrefused : ((evaluator.flags.has .sigPushOnly || redeems) && !unlocking.isPushOnly) = true
  · rw [if_pos hrefused]
    obtain ⟨hasked, hother⟩ := Bool.and_eq_true_iff.1 hrefused
    simp only [Bool.or_eq_true, Bool.not_eq_true'] at hasked hother
    simp [hasked, hother]
  · rw [if_neg hrefused]
    have hpushes : evaluator.flags.has .sigPushOnly = true ∨ redeems = true →
        unlocking.isPushOnly = true := by
      intro hasked
      simpa [hasked] using hrefused
    rw [and_iff_right hpushes]
    simp only [Evaluation.andThen_result_eq_ok_iff, andThen_requireTrue_result, run_verdict]
    cases redeems with
    | false => simp
    | true => simp [redeem_result_eq_ok_iff]

end Evaluator

end SpendCheck
