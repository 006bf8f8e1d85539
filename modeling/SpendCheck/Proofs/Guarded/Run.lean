import SpendCheck.Machine.Evaluator
import SpendCheck.Proofs.Guarded.MultiSig
import SpendCheck.Proofs.Machine.Separator

namespace SpendCheck.Guarded

open Checked Guarded.Action Guarded.Items

/-! Operations. The opcodes of the small numbers are turned into numbers by a difference. -/

/-- The number that an opcode pushes. -/
def smallNumber (opcode : Opcode) : Checked Int := do
  let offset ← difference opcode.toNat (Opcode.reserved + 1).toNat
  return (offset + 1 : Nat)

/-- The meaning of an opcode. -/
def operationOf (opcode : Opcode) : Checked Operation := do
  if Opcode.reserved < opcode ∧ opcode ≤ Opcode.sixteen then return .number (← smallNumber opcode)
  else return Operation.ofOpcode opcode

/-- Opens a conditional. -/
def openConditional (expected : Bool) : Action Machine Unit := do
  if (← get).executes then
    let element ← onItems (popOr .unbalancedConditional)
    let value ← truthy element
    modify fun m => { m with conditions := (value == expected) :: m.conditions }
  else modify fun m => { m with conditions := false :: m.conditions }

/-- The effect of the opcodes around conditionals. -/
def branch : Branching → Action Machine Unit
  | .ifTrue => openConditional true
  | .ifFalse => openConditional false
  | .otherwise => operation Branching.otherwise.apply
  | .endIf => operation Branching.endIf.apply

/-- Moves the top element to the other stack. -/
def toAltStack : Action Machine Unit := do
  let element ← onItems pop
  modify fun m => { m with altStack := element :: m.altStack }

/-- Moves the top element of the other stack back. -/
def fromAltStack : Action Machine Unit := do
  let m ← get
  match m.altStack with
  | [] => throw .invalidAltstackOperation
  | element :: rest =>
    set { m with altStack := rest }
    onItems (push element)

/-- The effect of an operation where it is executed. -/
def execute (context : Context) (code : Script) : Operation → Action Machine Unit
  | .number value => onItems (push (Number.encode value))
  | .nop => return
  | .branching kind => branch kind
  | .verify => onItems (verify .verify)
  | .fail => throw .opReturn
  | .toAltStack => toAltStack
  | .fromAltStack => fromAltStack
  | .stack kind => onItems (rearrange kind)
  | .equal => onItems equal
  | .equalVerify => onItems do
    equal
    verify .equalVerify
  | .unary kind => onItems (unary kind)
  | .binary kind => onItems (binary kind)
  | .numEqualVerify => onItems do
    binary .numEqual
    verify .numEqualVerify
  | .within => onItems within
  | .hash kind => onItems (hash kind)
  | .codeSeparator => modify fun m => { m with separator := m.position }
  | .checkSig => checkSig context code
  | .checkSigVerify => do
    checkSig context code
    onItems (verify .checkSigVerify)
  | .checkMultiSig => checkMultiSig context code
  | .checkMultiSigVerify => do
    checkMultiSig context code
    onItems (verify .checkMultiSigVerify)
  | .disabled => throw .disabledOpcode
  | .undefined => throw .badOpcode

/-- Executes an operation, unless a conditional prevents it. The signed part of the script
is cut off in front of it. -/
def executeWhere (context : Context) (operation : Operation) : Action Machine Unit := do
  let m ← get
  if m.executes then
    let code ← sliceFrom context.script m.separator
    execute context code operation

/-- The effect of an operation. -/
def operate (context : Context) : Operation → Action Machine Unit
  | .disabled => throw .disabledOpcode
  | .branching kind => branch kind
  | operation => executeWhere context operation

/-- The effect of a push of data. -/
def pushPayload (payload : Bytes) : Action Machine Unit := do
  if maxElementSize < payload.length then throw .pushSize
  if (← get).executes then onItems (push payload)

/-- The effect of an instruction. -/
def perform (context : Context) : Instruction → Action Machine Unit
  | .push _ payload => pushPayload payload
  | .op opcode => do
    operation fun m => if opcode.isCounted then m.countOperations 1 else .done m
    operate context (← operationOf opcode)

/-- Evaluates the script from the current position on. -/
def runFrom (context : Context) : (turns : Nat) → Action Machine Unit
  | 0 => (Except.error Fault.endless : Checked Unit)
  | turns + 1 => do
    match ← next context.script (← get).position with
    | .done => operation (Machine.finish [])
    | .truncated => throw .badOpcode
    | .instruction found stop =>
      modify fun m => { m with position := stop }
      perform context found
      operation Machine.checkDepth
      runFrom context turns

variable {context : SpendCheck.Context} {m : Machine}

/-- The offset of a small number is computed only for opcodes that have one, where it is not
negative. -/
theorem operationOf_eq_ok (opcode : Opcode) : operationOf opcode = .ok (Operation.ofOpcode opcode) := by
  unfold operationOf
  by_cases hnumber : Opcode.reserved < opcode ∧ opcode ≤ Opcode.sixteen
  · have hlow : Opcode.reserved.toNat < opcode.toNat := hnumber.1
    have hother : opcode ≠ Opcode.negativeOne := fun heq => absurd (heq ▸ hnumber.1) (by decide)
    have hdifference : difference opcode.toNat (Opcode.reserved + 1).toNat =
        .ok (opcode.toNat - (Opcode.reserved + 1).toNat) := difference_eq_ok hlow
    have hoffset : opcode.toNat - (Opcode.reserved + 1).toNat + 1 = (opcode - Opcode.reserved).toNat := by
      rw [UInt8.toNat_sub_of_le _ _ (Nat.le_of_lt hlow)]
      change opcode.toNat - 81 + 1 = opcode.toNat - 80
      change 80 < opcode.toNat at hlow
      omega
    have hmeaning : Operation.ofOpcode opcode = .number (opcode - Opcode.reserved).toNat :=
      (if_neg hother).trans (if_pos hnumber)
    rw [if_pos hnumber, hmeaning, smallNumber, hdifference, ok_bind, hoffset]
    rfl
  · rw [if_neg hnumber]
    rfl

/-- A conditional takes its element away where it is executed, and elsewhere leaves the stack
alone. -/
theorem exec_openConditional (expected : Bool) (m : Machine) :
    exec (openConditional expected) m.upended = seen Machine.upended (m.openConditional expected) := by
  unfold openConditional Machine.openConditional
  rw [exec_bind_of_ok exec_get, Machine.upended_executes]
  by_cases hexecutes : m.executes = true
  swap
  · rw [if_neg hexecutes, if_neg hexecutes]
    rfl
  rw [if_pos hexecutes, if_pos hexecutes]
  cases hstack : m.stack with
  | nil =>
    rw [exec_bind, exec_onItems_popOr_nil _ hstack]
    rfl
  | cons element rest =>
    rw [exec_bind_of_ok (exec_onItems_popOr_cons _ hstack),
      exec_bind_of_ok (exec_lift_of_ok (truthy_eq_ok element))]
    rfl

theorem exec_branch (kind : Branching) (m : Machine) :
    exec (branch kind) m.upended = seen Machine.upended (kind.apply m) := by
  cases kind with
  | ifTrue => exact exec_openConditional true m
  | ifFalse => exact exec_openConditional false m
  | otherwise =>
    obtain ⟨stack, altStack, conditions, opCount, separator, position, calls⟩ := m
    exact exec_operation (by cases conditions <;> rfl)
  | endIf =>
    obtain ⟨stack, altStack, conditions, opCount, separator, position, calls⟩ := m
    exact exec_operation (by cases conditions <;> rfl)

theorem exec_toAltStack (m : Machine) : exec toAltStack m.upended = seen Machine.upended m.toAltStack := by
  unfold toAltStack Machine.toAltStack
  cases hstack : m.stack with
  | nil =>
    rw [pop, exec_bind, exec_onItems_popOr_nil _ hstack]
    rfl
  | cons element rest =>
    rw [pop, exec_bind_of_ok (exec_onItems_popOr_cons _ hstack)]
    rfl

/-- What is moved back leaves the other stack before it is measured. -/
theorem exec_fromAltStack (m : Machine) :
    exec fromAltStack m.upended = seen Machine.upended m.fromAltStack := by
  obtain ⟨stack, altStack, conditions, opCount, separator, position, calls⟩ := m
  unfold fromAltStack Machine.fromAltStack
  rw [exec_bind_of_ok exec_get]
  cases altStack with
  | nil => rfl
  | cons element rest =>
    exact exec_onItems_of_seen (m := ⟨stack, rest, conditions, opCount, separator, position, calls⟩)
      (exec_push element stack)

theorem exec_equalVerify (stack : Stack) :
    exec (do equal; verify .equalVerify) stack.reverse =
      seen List.reverse (stack.equal.andThen (Stack.verify .equalVerify)) :=
  exec_bind_of_seen (exec_equal stack) fun t _ => exec_verify _ t

theorem exec_numEqualVerify (stack : Stack) :
    exec (do binary .numEqual; verify .numEqualVerify) stack.reverse =
      seen List.reverse ((BinaryOperation.numEqual.apply stack).andThen (Stack.verify .numEqualVerify)) :=
  exec_bind_of_seen (exec_binary .numEqual stack) fun t _ => exec_verify _ t

/-- Every operation does without a fault, on a stack with its top element last, what the machine
does. -/
theorem exec_execute (operation : Operation) (m : Machine) :
    exec (execute context.guarded (m.scriptCode context) operation) m.upended =
      seen Machine.upended (m.execute context operation) := by
  cases operation with
  | number value => exact exec_onItems_of_seen (exec_push _ _)
  | nop => rfl
  | branching kind => exact exec_branch kind m
  | verify => exact exec_onItems_of_seen (exec_verify _ _)
  | fail => rfl
  | toAltStack => exact exec_toAltStack m
  | fromAltStack => exact exec_fromAltStack m
  | stack kind => exact exec_onItems_of_seen (exec_rearrange kind _)
  | equal => exact exec_onItems_of_seen (exec_equal _)
  | equalVerify =>
    exact @exec_onItems_of_seen m (do equal; verify .equalVerify)
      (fun stack => stack.equal.andThen (Stack.verify .equalVerify)) (exec_equalVerify _)
  | unary kind => exact exec_onItems_of_seen (exec_unary kind _)
  | binary kind => exact exec_onItems_of_seen (exec_binary kind _)
  | numEqualVerify =>
    exact @exec_onItems_of_seen m (do binary .numEqual; verify .numEqualVerify)
      (fun stack => (BinaryOperation.numEqual.apply stack).andThen (Stack.verify .numEqualVerify))
      (exec_numEqualVerify _)
  | within => exact exec_onItems_of_seen (exec_within _)
  | hash kind => exact exec_onItems_of_seen (exec_hash kind _)
  | codeSeparator => rfl
  | checkSig => exact exec_checkSig m
  | checkSigVerify =>
    exact exec_bind_of_seen (exec_checkSig m) fun t _ => exec_onItems_of_seen (exec_verify _ _)
  | checkMultiSig => exact exec_checkMultiSig m
  | checkMultiSigVerify =>
    exact exec_bind_of_seen (exec_checkMultiSig m) fun t _ => exec_onItems_of_seen (exec_verify _ _)
  | disabled => rfl
  | undefined => rfl

/-- Where the separator lies inside of the script, what is behind it can be cut off. -/
theorem exec_executeWhere (hseparator : m.separator ≤ context.script.length) (operation : Operation) :
    exec (executeWhere context.guarded operation) m.upended =
      seen Machine.upended (if m.executes then m.execute context operation else .done m) := by
  have hcode : sliceFrom context.script m.separator = .ok (m.scriptCode context) :=
    sliceFrom_eq_ok hseparator
  rw [executeWhere, exec_bind_of_ok exec_get, Machine.upended_executes]
  by_cases hexecutes : m.executes = true
  · rw [if_pos hexecutes, if_pos hexecutes]
    exact (exec_bind_of_ok (exec_lift_of_ok hcode)).trans (exec_execute _ m)
  · rw [if_neg hexecutes, if_neg hexecutes]
    rfl

theorem exec_operate (hseparator : m.separator ≤ context.script.length) (operation : Operation) :
    exec (operate context.guarded operation) m.upended =
      seen Machine.upended (m.operate context operation) := by
  cases operation with
  | disabled => rfl
  | branching kind => exact exec_branch kind m
  | _ => exact exec_executeWhere hseparator _

/-- A payload is measured also where it is not pushed. -/
theorem exec_pushPayload (payload : Bytes) (m : Machine) :
    exec (pushPayload payload) m.upended = seen Machine.upended (m.pushPayload payload) := by
  unfold pushPayload Machine.pushPayload
  by_cases hsize : maxElementSize < payload.length
  · rw [if_pos hsize, if_pos hsize]
    rfl
  rw [if_neg hsize, if_neg hsize]
  dsimp only
  rw [exec_bind_of_ok exec_get, Machine.upended_executes]
  by_cases hexecutes : m.executes = true
  · rw [if_pos hexecutes, if_pos hexecutes]
    exact exec_onItems_of_seen (exec_push payload _)
  · rw [if_neg hexecutes, if_neg hexecutes]
    rfl

/-- The part behind the last separator can be cut off as long as the separator lies inside of
the script. -/
theorem exec_perform (hseparator : m.separator ≤ context.script.length) (instruction : Instruction) :
    exec (perform context.guarded instruction) m.upended =
      seen Machine.upended (m.perform context instruction) := by
  cases instruction with
  | push opcode payload => exact exec_pushPayload payload m
  | op opcode =>
    refine exec_bind_of_seen (exec_operation ?_) fun t ht => ?_
    · split
      · exact countOperations_upended 1 m
      · rfl
    · obtain ⟨-, rfl⟩ := Machine.count_eq_done_iff.1 ht
      rw [exec_bind_of_ok (exec_lift_of_ok (operationOf_eq_ok opcode))]
      exact exec_operate (m := { m with opCount := m.opCount + if opcode.isCounted = true then 1 else 0 })
        hseparator _

theorem checkDepth_upended (m : Machine) : m.upended.checkDepth = m.checkDepth.map Machine.upended := by
  unfold Machine.checkDepth
  rw [Machine.upended_depth]
  split <;> rfl

theorem finish_upended (tail : Bytes) (m : Machine) :
    m.upended.finish tail = (m.finish tail).map Machine.upended := by
  unfold Machine.finish
  rw [Machine.upended_conditions]
  cases tail.isEmpty <;> cases m.conditions.isEmpty <;> rfl

/-- The loop ends, as every instruction moves the position forward, and the separator never
gets ahead of it. -/
theorem exec_runFrom {turns : Nat} (hposition : m.position ≤ context.script.length)
    (hseparator : m.separator ≤ m.position) (hturns : context.script.length - m.position < turns) :
    exec (runFrom context.guarded turns) m.upended =
      seen Machine.upended
        ((m.steps context (Script.instructions (context.script.drop m.position))).andThen
          (Machine.finish (Script.tail (context.script.drop m.position)))) := by
  induction turns generalizing m with
  | zero => omega
  | succ turns ih =>
    rw [runFrom, exec_bind_of_ok exec_get]
    by_cases hend : context.script.length ≤ m.position
    · have hnext : next context.guarded.script m.upended.position = .ok .done := next_of_length_le _ hend
      rw [exec_bind_of_ok (exec_lift_of_ok hnext), List.drop_eq_nil_of_le hend, Script.instructions,
        Script.tail, Script.decode_nil]
      exact exec_operation (finish_upended [] m)
    cases hread : Instruction.read? (context.script.drop m.position) with
    | none =>
      have hnext : next context.guarded.script m.upended.position = .ok .truncated :=
        next_of_read?_eq_none _ (Nat.not_le.1 hend) hread
      have hrest : context.script.drop m.position ≠ [] := fun hnil => hend (List.drop_eq_nil_iff.1 hnil)
      have hfinish : m.finish (context.script.drop m.position) = .failed .badOpcode m := by
        rw [Machine.finish, List.isEmpty_eq_false_iff.2 hrest]
        rfl
      rw [exec_bind_of_ok (exec_lift_of_ok hnext), Script.instructions, Script.tail,
        Script.decode_of_read?_eq_none hread]
      dsimp only
      rw [Machine.steps, Outcome.done_andThen, hfinish]
      rfl
    | some read =>
      obtain ⟨found, rest⟩ := read
      obtain ⟨hstop, -, hrest⟩ := slice_of_read? hread
      have hpos := found.size_pos
      have hnext : next context.guarded.script m.upended.position =
          .ok (.instruction found (m.position + found.size)) := next_of_read? _ _ hread
      rw [exec_bind_of_ok (exec_lift_of_ok hnext), Script.instructions, Script.tail,
        Script.decode_of_read?_eq_some hread]
      dsimp only
      rw [exec_bind_of_ok (exec_modify _), Machine.steps, Machine.step, Outcome.andThen_assoc,
        Outcome.andThen_assoc]
      refine exec_bind_of_seen (exec_perform (m := { m with position := m.position + found.size })
        (Nat.le_trans hseparator hposition) found) fun t ht => ?_
      refine exec_bind_of_seen (exec_operation (checkDepth_upended t)) fun u hu => ?_
      have hstep : m.step context found = .done u := by
        rw [Machine.step, ht]
        exact hu
      have hmoved : u.position = m.position + found.size := by
        have hmoved := Machine.step_position context m found
        rwa [hstep] at hmoved
      have hbehind : u.separator ≤ u.position := by
        rw [Machine.separator_of_step hstep]
        split <;> omega
      have hloop := ih (m := u) (by omega) hbehind (by omega)
      rw [hmoved, hrest] at hloop
      exact hloop

/-- The loop over a script ends within one turn more than the script has bytes. -/
theorem exec_run (context : SpendCheck.Context) (hposition : m.position = 0) (hseparator : m.separator = 0) :
    exec (runFrom context.guarded (context.script.length + 1)) m.upended =
      seen Machine.upended (m.run context) := by
  have hexec : exec (runFrom context.guarded (context.script.length + 1)) m.upended = _ :=
    exec_runFrom (by omega) (by omega) (by omega)
  rw [hposition, List.drop_zero] at hexec
  exact hexec

end SpendCheck.Guarded
