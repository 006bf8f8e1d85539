import SpendCheck.Machine.Step

namespace SpendCheck

namespace Outcome

variable {σ : Type}

@[simp] theorem done_state (s : σ) : (done s).state = s := rfl

@[simp] theorem failed_state (e : ScriptError) (s : σ) : (failed e s).state = s := rfl

end Outcome

/-- The operation acts on the stacks alone: it does not follow conditionals, mark
a place in the script or check signatures. -/
def Operation.actsOnStacks : Operation → Bool
  | branching _ | codeSeparator | checkSig | checkSigVerify | checkMultiSig
  | checkMultiSigVerify => false
  | _ => true

/-- Opcodes that do something else than to push a number are counted. -/
theorem Operation.isCounted_of_ofOpcode {opcode : Opcode}
    (hnumber : ∀ value, Operation.ofOpcode opcode ≠ .number value)
    (hundefined : Operation.ofOpcode opcode ≠ .undefined) : opcode.isCounted = true := by
  unfold ofOpcode at hnumber hundefined
  split at hnumber
  · exact absurd rfl (hnumber _)
  · next hnegative =>
    rw [if_neg hnegative] at hundefined
    split at hnumber
    · exact absurd rfl (hnumber _)
    · next hsmall =>
      rw [if_neg hsmall] at hundefined
      -- Every opcode that has a case of its own is above the numbers.
      split at hundefined <;> first | rfl | exact absurd rfl hundefined

theorem Operation.eq_codeSeparator_of_ofOpcode {opcode : Opcode}
    (h : Operation.ofOpcode opcode = .codeSeparator) : opcode = Opcode.codeSeparator := by
  unfold ofOpcode at h
  split at h
  · cases h
  · split at h
    · cases h
    · split at h <;> first | rfl | cases h

namespace Machine

variable (context : Context) (m : Machine)

@[simp] theorem onStack_state (operation : Stack → Outcome Stack) :
    (m.onStack operation).state = { m with stack := (operation m.stack).state } := by
  unfold onStack
  cases operation m.stack <;> rfl

@[simp] theorem checkDepth_state : m.checkDepth.state = m := by
  unfold checkDepth
  split <;> rfl

theorem andThen_onStack_state (o : Outcome Machine) (operation : Stack → Outcome Stack) :
    ∃ stack, (o.andThen fun m => m.onStack operation).state = { o.state with stack := stack } := by
  cases o with
  | done m => exact ⟨_, onStack_state m operation⟩
  | failed e m => exact ⟨m.stack, rfl⟩

/-- An operation that acts on stacks leaves the rest of the machine as it was, also where it
fails. -/
theorem execute_state_of_actsOnStacks {operation : Operation} (h : operation.actsOnStacks = true) :
    ∃ stack altStack, (m.execute context operation).state =
      { m with stack := stack, altStack := altStack } := by
  cases operation with
  | nop => exact ⟨m.stack, m.altStack, rfl⟩
  | fail => exact ⟨m.stack, m.altStack, rfl⟩
  | disabled => exact ⟨m.stack, m.altStack, rfl⟩
  | undefined => exact ⟨m.stack, m.altStack, rfl⟩
  | toAltStack =>
    simp only [execute, toAltStack]
    split <;> exact ⟨_, _, rfl⟩
  | fromAltStack =>
    simp only [execute, fromAltStack]
    split
    · exact ⟨_, _, rfl⟩
    · exact ⟨_, _, onStack_state _ _⟩
  | branching kind => cases h
  | codeSeparator => cases h
  | checkSig => cases h
  | checkSigVerify => cases h
  | checkMultiSig => cases h
  | checkMultiSigVerify => cases h
  | _ =>
    rw [execute]
    exact ⟨_, m.altStack, onStack_state m _⟩

/-! What the parts of a step leave that unfold into several cases. -/

/-- What holds of a conditional: it fails and changes nothing, or it takes elements away and
opens at most one conditional. -/
theorem branching_cases {P : Outcome Machine → Prop} (kind : Branching)
    (hfailed : ∀ e, P (.failed e m))
    (hdone : ∀ stack conditions, stack <:+ m.stack →
      conditions.length ≤ m.conditions.length + 1 →
      P (.done { m with stack := stack, conditions := conditions })) :
    P (kind.apply m) := by
  have hopen : ∀ expected, P (m.openConditional expected) := by
    intro expected
    unfold openConditional
    split
    · split
      · exact hfailed _
      · next element rest hstack =>
        have hrest : rest <:+ m.stack := hstack ▸ List.suffix_cons element rest
        exact hdone rest _ hrest (Nat.le_refl _)
    · exact hdone m.stack _ (List.suffix_refl _) (Nat.le_refl _)
  cases kind with
  | ifTrue => exact hopen true
  | ifFalse => exact hopen false
  | otherwise =>
    simp only [Branching.apply]
    split
    · exact hfailed _
    · next condition outer hconditions =>
      exact hdone m.stack _ (List.suffix_refl _) (by simp [hconditions])
  | endIf =>
    simp only [Branching.apply]
    split
    · exact hfailed _
    · next condition outer hconditions =>
      exact hdone m.stack _ (List.suffix_refl _) (by simp [hconditions]; omega)

/-- What holds of a check of one signature: it fails and changes nothing, or it puts one
question, and the answer takes the place of both arguments. -/
theorem checkSig_cases {P : Outcome Machine → Prop} (hfailed : ∀ e, P (.failed e m))
    (hdone : ∀ pubkey sig rest call, m.stack = pubkey :: sig :: rest →
      context.ask ((m.scriptCode context).deletePush sig) sig pubkey = .ok call →
      P (.done { m with stack := Number.ofBool call.valid :: rest, calls := m.calls ++ [call] })) :
    P (m.checkSig context) := by
  unfold checkSig
  split
  · next pubkey sig rest hstack =>
    cases hask : context.ask ((m.scriptCode context).deletePush sig) sig pubkey with
    | error e => exact hfailed e
    | ok call => exact hdone pubkey sig rest call hstack hask
  · exact hfailed _

/-- What holds of a multiple signature check that has found its arguments: its questions are put
in any case. -/
theorem settleMultiSig_cases {P : Outcome Machine → Prop} (args : MultiSig) {calls : List Call}
    (hcalls : calls = m.calls ++ (context.scan ((m.scriptCode context).deletePushes args.sigs)
      args.sigs args.keys).calls)
    (hfailed : ∀ e, P (.failed e { m with calls := calls }))
    (hdummy : P (.failed .sigNullDummy { m with stack := args.dummy :: args.base, calls := calls }))
    (hdone : ∀ success,
      P (.done { m with stack := Number.ofBool success :: args.base, calls := calls })) :
    P (m.settleMultiSig context args) := by
  subst hcalls
  simp only [settleMultiSig]
  split
  · exact hfailed _
  · split
    · exact hdummy
    · exact hdone _

/-- What holds of a multiple signature check: it fails and changes nothing, or after it has
counted the keys, or it comes to put its questions. -/
theorem checkMultiSig_cases {P : Outcome Machine → Prop} (hfailed : ∀ e, P (.failed e m))
    (hcounted : ∀ e keyCount, P (.failed e { m with opCount := m.opCount + keyCount }))
    (hsettled : ∀ element below keyCount args, m.stack = element :: below →
      Number.decodeCount maxKeys .pubkeyCount element = .ok keyCount →
      m.opCount + keyCount ≤ maxOperations → MultiSig.ofStack? keyCount below = .ok args →
      P (settleMultiSig context args { m with opCount := m.opCount + keyCount })) :
    P (m.checkMultiSig context) := by
  unfold checkMultiSig
  split
  · exact hfailed _
  · next element below hstack =>
    cases hcount : Number.decodeCount maxKeys .pubkeyCount element with
    | error e => exact hfailed e
    | ok keyCount =>
      simp only [countOperations]
      split
      · exact hcounted _ keyCount
      · next hroom =>
        cases hargs : MultiSig.ofStack? keyCount below with
        | error e => exact hcounted e keyCount
        | ok args => exact hsettled element below keyCount args hstack hcount (Nat.not_lt.1 hroom) hargs

/-! The fields that a part of a step may change, whether it succeeds or fails. -/

/-- A conditional changes the stack and the conditions only, also when it fails. -/
theorem branching_state (kind : Branching) :
    ∃ stack conditions,
      (kind.apply m).state = { m with stack := stack, conditions := conditions } :=
  branching_cases (P := fun o => ∃ stack conditions,
      o.state = { m with stack := stack, conditions := conditions }) m kind
    (fun _ => ⟨_, _, rfl⟩) (fun _ _ _ _ => ⟨_, _, rfl⟩)

theorem opCount_of_apply {m m' : Machine} {kind : Branching} (h : kind.apply m = .done m') :
    m'.opCount = m.opCount := by
  obtain ⟨stack, conditions, hstate⟩ := branching_state m kind
  rw [h, Outcome.done_state] at hstate
  rw [hstate]

theorem checkSig_state :
    ∃ stack calls, (m.checkSig context).state = { m with stack := stack, calls := calls } :=
  checkSig_cases (P := fun o => ∃ stack calls, o.state = { m with stack := stack, calls := calls })
    context m (fun _ => ⟨_, _, rfl⟩) (fun _ _ _ _ _ _ => ⟨_, _, rfl⟩)

/-- The matching of signatures changes the stack and the calls only, also when it fails. -/
theorem settleMultiSig_state (args : MultiSig) :
    ∃ stack calls,
      (m.settleMultiSig context args).state = { m with stack := stack, calls := calls } :=
  settleMultiSig_cases
    (P := fun o => ∃ stack calls, o.state = { m with stack := stack, calls := calls }) context m args
    rfl (fun _ => ⟨_, _, rfl⟩) ⟨_, _, rfl⟩ (fun _ => ⟨_, _, rfl⟩)

/-- A multiple signature check changes the stack, the count and the questions, and nothing else. -/
theorem checkMultiSig_state :
    ∃ stack opCount calls, m.opCount ≤ opCount ∧ (m.checkMultiSig context).state =
      { m with stack := stack, opCount := opCount, calls := calls } := by
  apply checkMultiSig_cases (P := fun o => ∃ stack opCount calls, m.opCount ≤ opCount ∧
    o.state = { m with stack := stack, opCount := opCount, calls := calls })
  · intro e
    exact ⟨_, _, _, Nat.le_refl _, rfl⟩
  · intro e keyCount
    exact ⟨_, _, _, Nat.le_add_right _ _, rfl⟩
  · intro element below keyCount args _ _ _ _
    obtain ⟨stack, calls, hstate⟩ := settleMultiSig_state context
      { m with opCount := m.opCount + keyCount } args
    exact ⟨_, _, _, Nat.le_add_right _ _, hstate⟩

/-- Conditionals and separators apart, operations change neither the conditions nor
a place in the script, and count no operation back. -/
theorem execute_state_of_ne {operation : Operation} (hother : ∀ kind, operation ≠ .branching kind)
    (hseparator : operation ≠ .codeSeparator) :
    ∃ stack altStack opCount calls, m.opCount ≤ opCount ∧ (m.execute context operation).state =
      { m with stack := stack, altStack := altStack, opCount := opCount, calls := calls } := by
  cases hacts : operation.actsOnStacks with
  | true =>
    obtain ⟨stack, altStack, hstate⟩ := execute_state_of_actsOnStacks context m hacts
    exact ⟨_, _, _, _, Nat.le_refl _, hstate⟩
  | false =>
    cases operation with
    | branching kind => exact absurd rfl (hother kind)
    | codeSeparator => exact absurd rfl hseparator
    | checkSig =>
      obtain ⟨stack, calls, hstate⟩ := checkSig_state context m
      exact ⟨_, _, _, _, Nat.le_refl _, hstate⟩
    | checkSigVerify =>
      obtain ⟨_, hverify⟩ :=
        andThen_onStack_state (m.checkSig context) (Stack.verify .checkSigVerify)
      obtain ⟨stack, calls, hstate⟩ := checkSig_state context m
      rw [execute, hverify, hstate]
      exact ⟨_, _, _, _, Nat.le_refl _, rfl⟩
    | checkMultiSig =>
      obtain ⟨stack, opCount, calls, hle, hstate⟩ := checkMultiSig_state context m
      exact ⟨_, _, _, _, hle, hstate⟩
    | checkMultiSigVerify =>
      obtain ⟨_, hverify⟩ :=
        andThen_onStack_state (m.checkMultiSig context) (Stack.verify .checkMultiSigVerify)
      obtain ⟨stack, opCount, calls, hle, hstate⟩ := checkMultiSig_state context m
      rw [execute, hverify, hstate]
      exact ⟨_, _, _, _, hle, rfl⟩
    | _ => cases hacts

/-- Operations do not move the place in the script, which only steps do, and count no
operation back. -/
theorem execute_position_opCount (operation : Operation) :
    (m.execute context operation).state.position = m.position ∧
      m.opCount ≤ (m.execute context operation).state.opCount := by
  by_cases hkind : ∃ kind, operation = .branching kind
  · obtain ⟨kind, rfl⟩ := hkind
    obtain ⟨stack, conditions, hstate⟩ := branching_state m kind
    rw [execute, hstate]
    exact ⟨rfl, Nat.le_refl _⟩
  · by_cases hseparator : operation = .codeSeparator
    · rw [hseparator]
      exact ⟨rfl, Nat.le_refl _⟩
    · obtain ⟨stack, altStack, opCount, calls, hle, hstate⟩ :=
        execute_state_of_ne context m (not_exists.1 hkind) hseparator
      rw [hstate]
      exact ⟨rfl, hle⟩

/-- What an instruction leaves is the machine itself with operations counted, with
a payload pushed, or what an operation leaves. Inside of a branch that is not
taken only conditionals are followed. -/
theorem perform_cases {P : Machine → Prop} (instruction : Instruction)
    (hcounted : ∀ opCount, m.opCount ≤ opCount → P { m with opCount := opCount })
    (hpushed : ∀ payload, P (m.onStack (Stack.push payload)).state)
    (hexecuted : ∀ opcode opCount, instruction = .op opcode → m.opCount ≤ opCount →
      (opcode.isCounted = true → opCount = m.opCount + 1 ∧ m.opCount < maxOperations) →
      (m.executes = true ∨ ∃ kind, Operation.ofOpcode opcode = .branching kind) →
      P (execute context { m with opCount := opCount } (Operation.ofOpcode opcode)).state) :
    P (m.perform context instruction).state := by
  cases instruction with
  | push opcode payload =>
    simp only [perform, pushPayload]
    split
    · exact hcounted m.opCount (Nat.le_refl _)
    · split
      · exact hpushed payload
      · exact hcounted m.opCount (Nat.le_refl _)
  | op opcode =>
    have hoperated : ∀ opCount, m.opCount ≤ opCount →
        (opcode.isCounted = true → opCount = m.opCount + 1 ∧ m.opCount < maxOperations) →
        P (operate context (Operation.ofOpcode opcode) { m with opCount := opCount }).state := by
      intro opCount hle hcount
      have hexecute := hexecuted opcode opCount rfl hle hcount
      unfold operate
      split
      · exact hcounted opCount hle
      · next kind hkind =>
        rw [hkind] at hexecute
        exact hexecute (.inr ⟨kind, rfl⟩)
      · split
        · next hexecutes => exact hexecute (.inl hexecutes)
        · exact hcounted opCount hle
    simp only [perform, countOperations]
    split
    · split
      · exact hcounted (m.opCount + 1) (Nat.le_add_right _ _)
      · next hroom =>
        exact hoperated (m.opCount + 1) (Nat.le_add_right _ _) fun _ => ⟨rfl, Nat.not_lt.1 hroom⟩
    · next hfree => exact hoperated m.opCount (Nat.le_refl _) fun hcount => absurd hcount hfree

/-- Measuring the stacks changes nothing. -/
theorem step_state (instruction : Instruction) :
    (m.step context instruction).state =
      (perform context { m with position := m.position + instruction.size } instruction).state := by
  unfold step
  cases perform context { m with position := m.position + instruction.size } instruction with
  | done m' => exact checkDepth_state m'
  | failed e m' => rfl

/-- Every step moves the position by its instruction, and none reduces the count. -/
theorem step_position_opCount (instruction : Instruction) :
    (m.step context instruction).state.position = m.position + instruction.size ∧
      m.opCount ≤ (m.step context instruction).state.opCount := by
  rw [step_state]
  apply perform_cases
    (P := fun left => left.position = m.position + instruction.size ∧ m.opCount ≤ left.opCount)
  · intro opCount hle
    exact ⟨rfl, hle⟩
  · intro payload
    rw [onStack_state]
    exact ⟨rfl, Nat.le_refl _⟩
  · intro opcode opCount _ hle _ _
    obtain ⟨hposition, hcount⟩ := execute_position_opCount context
      { m with position := m.position + instruction.size, opCount := opCount }
      (Operation.ofOpcode opcode)
    exact ⟨hposition, Nat.le_trans hle hcount⟩

theorem step_position (instruction : Instruction) :
    (m.step context instruction).state.position = m.position + instruction.size :=
  (step_position_opCount context m instruction).1

/-- No step counts an operation back. -/
theorem le_step_opCount (instruction : Instruction) :
    m.opCount ≤ (m.step context instruction).state.opCount :=
  (step_position_opCount context m instruction).2

end Machine

end SpendCheck
