import SpendCheck.Proofs.Guarded.Run
import SpendCheck.Spend.Unlocking

namespace SpendCheck

namespace Guarded

open Checked Guarded.Action

/-- Evaluates scripts one after the other, with a checker that may fault. -/
structure Interpreter where
  flags : Flags
  checker : Bytes → Bytes → Script → Checked Bool
  conditions : List Bool
  opCount : Nat

/-- What an evaluation leaves, with the top element of the stack last. -/
structure Report where
  result : Except ScriptError Unit
  items : Items
  calls : List Call
  conditions : List Bool
  opCount : Nat

/-- Evaluates a script. -/
def Interpreter.run (interpreter : Interpreter) (items : Items) (script : Script) : Checked Report := do
  if maxScriptSize < script.length then
    return ⟨.error .scriptSize, items, [], interpreter.conditions, interpreter.opCount⟩
  let out ← exec (runFrom ⟨interpreter.flags, interpreter.checker, script⟩ (script.length + 1))
    { stack := items }
  return ⟨out.1, out.2.stack, out.2.calls, out.2.conditions, out.2.opCount⟩

/-- Evaluates a script and goes on with the elements that are left. -/
def evaluate (items : Items) (script : Script) : Action Interpreter Items := do
  let interpreter ← get
  let report ← interpreter.run items script
  set { interpreter with conditions := report.conditions, opCount := report.opCount }
  adopt report.result
  return report.items

/-- Fails unless the top element is there and true. -/
def requireTrue (items : Items) : Action Interpreter Unit := do
  match items.getLast? with
  | none => throw .evalFalse
  | some element => if !(← truthy element) then throw .evalFalse

/-- Evaluates the element pushed last as a script on the elements below it. -/
def redeem (items : Items) : Action Interpreter Unit := do
  match items.getLast? with
  | none => throw .invalidStackOperation
  | some script => requireTrue (← evaluate items.dropLast script)

/-- Evaluates an unlocking script, a locking script, and perhaps the script that the
unlocking script pushes last. -/
def verify (unlocking locking : Script) : Action Interpreter Unit := do
  let flags := (← get).flags
  let redeems ← both (flags.has .p2sh) (isPayToScriptHash locking)
  if ← both (flags.has .sigPushOnly || redeems) (do return !(← isPushOnly unlocking)) then
    throw .sigPushOnly
  let unlocked ← evaluate [] unlocking
  let locked ← evaluate unlocked locking
  requireTrue locked
  if redeems then redeem unlocked

end Guarded

/-- An evaluator whose checker never faults. -/
def Evaluator.guarded (evaluator : Evaluator) : Guarded.Interpreter :=
  ⟨evaluator.flags, evaluator.checker.guarded, evaluator.conditions, evaluator.opCount⟩

/-- What an evaluation leaves, with the top element of the stack last. -/
def Evaluation.report (evaluation : Evaluation) : Guarded.Report :=
  ⟨evaluation.result, evaluation.stack.reverse, evaluation.calls, evaluation.evaluator.conditions,
    evaluation.evaluator.opCount⟩

namespace Guarded

open Checked Guarded.Action

/-- The result of an evaluation and the interpreter that it leaves. -/
def told (evaluation : Evaluation) : Checked (Except ScriptError Unit × Interpreter) :=
  .ok (evaluation.result, evaluation.evaluator.guarded)

/-- An evaluation does not fault and ends in time, whatever script and stack it is given. -/
theorem run_eq_ok (evaluator : Evaluator) (stack : Stack) (script : Script) :
    evaluator.guarded.run stack.reverse script = .ok (evaluator.run stack script).report := by
  unfold Interpreter.run Evaluator.run
  by_cases hsize : maxScriptSize < script.length
  · rw [if_pos hsize, if_pos hsize]
    rfl
  rw [if_neg hsize, if_neg hsize]
  have hexec := exec_run (m := evaluator.reset.start stack)
    ⟨evaluator.flags, evaluator.checker, script⟩ rfl rfl
  dsimp only
  generalize (evaluator.reset.start stack).run ⟨evaluator.flags, evaluator.checker, script⟩ = outcome
    at hexec ⊢
  exact congrArg (fun out => out >>= _) hexec

/-- An evaluation keeps the flags and the checker of its interpreter and replaces the rest. -/
theorem exec_evaluate (evaluator : Evaluator) (stack : Stack) (script : Script) :
    exec (evaluate stack.reverse script) evaluator.guarded =
      .ok ((evaluator.run stack script).result.map fun _ => (evaluator.run stack script).stack.reverse,
        (evaluator.run stack script).evaluator.guarded) := by
  have hkept : { evaluator.guarded with
        conditions := (evaluator.run stack script).report.conditions
        opCount := (evaluator.run stack script).report.opCount } =
      (evaluator.run stack script).evaluator.guarded := by
    unfold Evaluator.run
    split <;> rfl
  rw [evaluate, exec_bind_of_ok exec_get,
    exec_bind_of_ok (exec_lift_of_ok (run_eq_ok evaluator stack script)), exec_bind_of_ok (exec_set _), hkept,
    exec_bind, exec_adopt]
  unfold Evaluation.report
  cases (evaluator.run stack script).result <;> rfl

/-- An evaluation in front of other ones. -/
theorem exec_evaluate_bind {evaluator : Evaluator} {stack : Stack} {script : Script}
    {following : Items → Action Interpreter Unit} {g : Evaluator → Stack → Evaluation}
    (h : ∀ later left, exec (following left.reverse) later.guarded = told (g later left)) :
    exec (evaluate stack.reverse script >>= following) evaluator.guarded =
      told ((evaluator.run stack script).andThen g) := by
  rw [exec_bind, exec_evaluate, ok_bind, told, Evaluation.andThen]
  cases hresult : (evaluator.run stack script).result with
  | error e =>
    dsimp only
    rw [hresult]
    rfl
  | ok _ => exact h _ _

theorem exec_requireTrue (evaluator : Evaluator) (stack : Stack) :
    exec (requireTrue stack.reverse) evaluator.guarded = told (evaluator.requireTrue stack) := by
  rw [requireTrue, List.getLast?_reverse, Evaluator.requireTrue, Stack.isTrue]
  cases stack.head? with
  | none => rfl
  | some element =>
    dsimp only
    rw [exec_bind_of_ok (exec_lift_of_ok (truthy_eq_ok element)), Option.any_some]
    cases Number.truthy element <;> rfl

/-- The redeem script is the last item of the vector, and neither taking it away nor its
evaluation faults. -/
theorem exec_redeem (evaluator : Evaluator) (stack : Stack) :
    exec (redeem stack.reverse) evaluator.guarded = told (evaluator.redeem stack) := by
  unfold redeem Evaluator.redeem
  rw [List.getLast?_reverse]
  cases stack with
  | nil => rfl
  | cons script below =>
    rw [List.dropLast_reverse]
    exact exec_evaluate_bind fun later left => exec_requireTrue later left

/-- A true element on top in front of other evaluations. -/
theorem exec_requireTrue_bind {evaluator : Evaluator} {stack : Stack}
    {following : Unit → Action Interpreter Unit} {g : Evaluator → Stack → Evaluation}
    (h : exec (following ()) evaluator.guarded = told (g evaluator stack)) :
    exec (requireTrue stack.reverse >>= following) evaluator.guarded =
      told ((evaluator.requireTrue stack).andThen g) := by
  rw [exec_bind, exec_requireTrue, Evaluator.requireTrue]
  cases stack.isTrue with
  | true => exact h
  | false => rfl

theorem told_andThen_assoc (e : Evaluation) (f g : Evaluator → Stack → Evaluation) :
    told ((e.andThen f).andThen g) = told (e.andThen fun later left => (f later left).andThen g) := by
  cases hresult : e.result with
  | error cause => simp [told, Evaluation.andThen, hresult]
  | ok _ =>
    simp only [told, Evaluation.andThen, hresult]
    cases hsecond : (f e.evaluator e.stack).result <;> simp [hsecond]

/-- The evaluations of a verification follow each other in one interpreter, and none of them
faults. -/
theorem exec_verify (evaluator : Evaluator) (unlocking locking : Script) :
    exec (verify unlocking locking) evaluator.guarded = told (evaluator.verify unlocking locking) := by
  have hredeems : both (evaluator.guarded.flags.has .p2sh) (isPayToScriptHash locking) =
      .ok (evaluator.redeems locking) :=
    both_eq_ok fun _ => isPayToScriptHash_eq_ok locking
  have hpushes : both (evaluator.guarded.flags.has .sigPushOnly || evaluator.redeems locking)
      (do return !(← isPushOnly unlocking)) =
      .ok ((evaluator.flags.has .sigPushOnly || evaluator.redeems locking) && !unlocking.isPushOnly) :=
    both_eq_ok fun _ => by rw [isPushOnly_eq_ok]; rfl
  rw [verify, exec_bind_of_ok exec_get, exec_bind_of_ok (exec_lift_of_ok hredeems),
    exec_bind_of_ok (exec_lift_of_ok hpushes), Evaluator.verify]
  dsimp only
  by_cases hrefused :
      ((evaluator.flags.has .sigPushOnly || evaluator.redeems locking) && !unlocking.isPushOnly) = true
  · rw [if_pos hrefused, if_pos hrefused]
    rfl
  rw [if_neg hrefused, if_neg hrefused]
  refine @exec_evaluate_bind evaluator [] unlocking _ _ fun later unlocked => ?_
  rw [told_andThen_assoc]
  refine exec_evaluate_bind fun later locked => ?_
  refine exec_requireTrue_bind ?_
  cases evaluator.redeems locking with
  | true => exact exec_redeem later unlocked
  | false => rfl

end Guarded

end SpendCheck
