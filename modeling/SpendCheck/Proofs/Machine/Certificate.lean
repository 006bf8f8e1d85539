import SpendCheck.Proofs.Machine.Limits
import SpendCheck.Proofs.Machine.Nesting
import SpendCheck.Proofs.Machine.Separator

namespace SpendCheck

theorem Number.eq_toNat_value_of_decodeCount {limit count : Nat} {outside : ScriptError}
    {element : Bytes} (h : Number.decodeCount limit outside element = .ok count) :
    count = (Number.value element).toNat := by
  unfold decodeCount decode at h
  split at h
  · cases h
  · next number hnumber =>
    split at hnumber
    · cases hnumber
    · cases hnumber
      split at h
      · cases h
      · cases h
        rfl

/-- How many keys an operation makes a multiple signature check list: the number on
top of the stack, if it is such a check. -/
def Operation.keysListed (stack : Stack) : Operation → Nat
  | checkMultiSig | checkMultiSigVerify => (stack.head?.elim 0 Number.value).toNat
  | _ => 0

namespace Machine

/-- How many keys an instruction lists, if it is executed. -/
def keysListed (m : Machine) : Instruction → Nat
  | .push _ _ => 0
  | .op opcode => if m.executes then (Operation.ofOpcode opcode).keysListed m.stack else 0

/-- How many keys are listed by all instructions that are executed. -/
def totalKeys (context : Context) : List Instruction → Machine → Nat
  | [], _ => 0
  | instruction :: rest, m =>
    m.keysListed instruction + totalKeys context rest (m.step context instruction).state

variable {context : Context} {m m' : Machine} {instruction : Instruction} {instructions : List Instruction}

/-- A step that succeeds shows that its instruction is admissible, executed or not. -/
theorem isAdmissible_of_step (h : m.step context instruction = .done m') :
    instruction.IsAdmissible := by
  obtain ⟨hperforms, -⟩ := performs_of_step h
  cases hperforms with
  | push hsize _ => exact hsize
  | skipPush hsize _ => exact hsize
  | branch _ hkind _ =>
    intro hdisabled
    rw [hdisabled] at hkind
    cases hkind
  | execute _ _ _ hexecute =>
    intro hdisabled
    rw [hdisabled] at hexecute
    cases hexecute
  | skip _ _ henabled _ => exact henabled

/-! The operations counted are the counted instructions, executed or not, and the
keys listed. -/

/-- A multiple signature check counts the number on top of the stack. -/
theorem opCount_of_checkMultiSig (h : m.checkMultiSig context = .done m') :
    m'.opCount = m.opCount + (m.stack.head?.elim 0 Number.value).toNat := by
  revert h
  apply checkMultiSig_cases (P := fun o => o = .done m' →
    m'.opCount = m.opCount + (m.stack.head?.elim 0 Number.value).toNat)
  · rintro e ⟨⟩
  · rintro e keyCount ⟨⟩
  · intro element below keyCount args hstack hcount _ _ hsettle
    obtain ⟨stack, calls, hstate⟩ := settleMultiSig_state context
      { m with opCount := m.opCount + keyCount } args
    rw [hsettle, Outcome.done_state] at hstate
    rw [hstate, hstack, Number.eq_toNat_value_of_decodeCount hcount]
    rfl

/-- An operation that succeeds counts the keys that it lists and nothing else. -/
theorem opCount_of_execute {operation : Operation} (h : m.execute context operation = .done m') :
    m'.opCount = m.opCount + operation.keysListed m.stack := by
  cases hacts : operation.actsOnStacks with
  | true =>
    obtain ⟨stack, altStack, hstate⟩ := execute_state_of_actsOnStacks context m hacts
    rw [h, Outcome.done_state] at hstate
    rw [hstate]
    cases operation <;> first | rfl | cases hacts
  | false =>
    cases operation with
    | branching kind => exact opCount_of_apply h
    | codeSeparator =>
      cases h
      rfl
    | checkSig =>
      obtain ⟨stack, calls, hstate⟩ := checkSig_state context m
      rw [execute] at h
      rw [h, Outcome.done_state] at hstate
      rw [hstate]
      rfl
    | checkSigVerify =>
      obtain ⟨checked, hcheck, hverify⟩ := Outcome.andThen_eq_done_iff.1 h
      obtain ⟨stack, calls, hstate⟩ := checkSig_state context m
      have hverified := onStack_state checked (Stack.verify .checkSigVerify)
      rw [hcheck, Outcome.done_state] at hstate
      rw [hverify, Outcome.done_state] at hverified
      rw [hverified, hstate]
      rfl
    | checkMultiSig => exact opCount_of_checkMultiSig h
    | checkMultiSigVerify =>
      obtain ⟨checked, hcheck, hverify⟩ := Outcome.andThen_eq_done_iff.1 h
      have hverified := onStack_state checked (Stack.verify .checkMultiSigVerify)
      rw [hverify, Outcome.done_state] at hverified
      have hchecked := opCount_of_checkMultiSig hcheck
      rw [hverified]
      exact hchecked
    | _ => cases hacts

/-- A step counts its opcode, executed or not, and the keys that it lists. -/
theorem opCount_of_step (h : m.step context instruction = .done m') :
    m'.opCount =
      m.opCount + (if instruction.isCounted = true then 1 else 0) + m.keysListed instruction := by
  obtain ⟨hperforms, -⟩ := performs_of_step h
  cases hperforms with
  | push => rfl
  | skipPush => rfl
  | @branch opcode _ _ _ hkind happly =>
    have hkeys : m.keysListed (.op opcode) = 0 := by
      simp [keysListed, hkind, Operation.keysListed]
    rw [opCount_of_apply happly, hkeys]
    rfl
  | @execute opcode _ _ _ hexecutes hexecute =>
    have hkeys : m.keysListed (.op opcode) = (Operation.ofOpcode opcode).keysListed m.stack :=
      if_pos hexecutes
    rw [opCount_of_execute hexecute, hkeys]
    rfl
  | @skip opcode _ _ _ hskips =>
    have hkeys : m.keysListed (.op opcode) = 0 := if_neg (Bool.eq_false_iff.1 hskips)
    rw [hkeys]
    rfl

/-- Steps count their opcodes, and the keys that are listed where they are executed. -/
theorem opCount_of_steps (h : m.steps context instructions = .done m') :
    m'.opCount = m.opCount + instructions.countP Instruction.isCounted +
      totalKeys context instructions m := by
  induction instructions generalizing m with
  | nil =>
    cases h
    rfl
  | cons instruction rest ih =>
    obtain ⟨stepped, hstep, hrest⟩ := Outcome.andThen_eq_done_iff.1 h
    rw [ih hrest, opCount_of_step hstep, totalKeys, hstep, Outcome.done_state, List.countP_cons]
    omega

end Machine

namespace Evaluator

/-- How many keys are listed by all multiple signature checks that an evaluation
executes. -/
def keysListed (evaluator : Evaluator) (stack : Stack) (script : Script) : Nat :=
  (evaluator.reset.start stack).totalKeys (evaluator.context script) script.instructions

variable {evaluator : Evaluator} {stack : Stack} {script : Script}
  {before after : List Instruction} {m : Machine}

theorem Passes.nesting_eq (h : evaluator.Passes stack script before after m) :
    Script.nesting before = m.conditions.length := by
  rw [Machine.length_conditions_of_steps h.steps_eq]
  simp [start, reset]

/-- An instruction that is passed was carried out, at a place passed before. -/
theorem Passes.exists_step_of_mem {instruction : Instruction}
    (h : evaluator.Passes stack script before after m) (hmem : instruction ∈ before) :
    ∃ earlier later : Machine,
      earlier.step (evaluator.context script) instruction = .done later := by
  obtain ⟨first, second, rfl⟩ := List.append_of_mem hmem
  obtain ⟨earlier, -, hsteps⟩ := h.split
  obtain ⟨stepped, hstep, -⟩ := Outcome.andThen_eq_done_iff.1 hsteps
  exact ⟨earlier, stepped, hstep⟩

/-- Conditionals that are all passed and all closed in the end are balanced. -/
theorem Passes.balanced (h : evaluator.Passes stack script script.instructions [] m)
    (hclosed : m.conditions = []) : Script.Balanced script.instructions := by
  constructor
  · rintro before ⟨after, hafter⟩
    rw [← hafter] at h
    obtain ⟨earlier, hearlier, -⟩ := h.split
    rw [hearlier.nesting_eq]
    omega
  · rintro before instruction ⟨after, hafter⟩ hturn
    rw [← hafter, List.append_assoc] at h
    obtain ⟨earlier, hearlier, hsteps⟩ := h.split
    obtain ⟨stepped, hstep, -⟩ := Outcome.andThen_eq_done_iff.1 hsteps
    have hopen := List.length_pos_iff.2 (Machine.conditions_ne_nil_of_turn hturn hstep)
    rw [hearlier.nesting_eq]
    omega
  · rw [h.nesting_eq, hclosed]
    rfl

theorem Passes.wellFormed (h : evaluator.Passes stack script script.instructions [] m)
    (hwhole : script.tail = []) (hclosed : m.conditions = []) : script.WellFormed where
  whole := hwhole
  admissible := fun _ hmem =>
    have ⟨_, _, hstep⟩ := h.exists_step_of_mem hmem
    Machine.isAdmissible_of_step hstep
  balanced := h.balanced hclosed

theorem Passes.opCount_eq (h : evaluator.Passes stack script script.instructions [] m) :
    m.opCount = script.instructions.countP Instruction.isCounted +
      evaluator.keysListed stack script := by
  rw [Machine.opCount_of_steps h.steps_eq, keysListed]
  simp [start, reset]

/-- A script that is evaluated with success is in order as a whole, whichever
branches are taken: it is not too long, it consists of instructions, all its pushes
are short and all its opcodes enabled, and its conditionals are balanced. The
operations counted are all its counted opcodes and the keys listed by the checks
that are executed, and there are not too many of them. -/
theorem successful_run_certifies_script (h : (evaluator.run stack script).result = .ok ()) :
    script.length ≤ maxScriptSize ∧ script.WellFormed ∧
      (evaluator.run stack script).evaluator.opCount =
        script.instructions.countP Instruction.isCounted + evaluator.keysListed stack script ∧
      script.instructions.countP Instruction.isCounted + evaluator.keysListed stack script ≤
        maxOperations := by
  obtain ⟨m, hpasses, hwhole, hclosed, hrun⟩ := run_eq_of_result_eq_ok h
  have hcount := hpasses.opCount_eq
  refine ⟨hpasses.length_le, hpasses.wellFormed hwhole hclosed, ?_, ?_⟩
  · rw [hrun, ← hcount]
  · rw [← hcount]
    exact hpasses.accounted.opCount_le

/-- A check that lists two keys in the branch that is taken, and one that would list
twenty in the other one: counted are the five opcodes of both branches and the two
keys. -/
theorem branch_with_two_keys_counts_seven :
    (Evaluator.run ⟨.standard, .refuseAll, [], 0⟩ [[1]]
      [0x63, 0x00, 0x00, 0x01, 0xaa, 0x01, 0xbb, 0x52, 0xae, 0x67, 0x01, 20, 0xaf, 0x68]).result =
      .ok () ∧
    Script.WellFormed
      [0x63, 0x00, 0x00, 0x01, 0xaa, 0x01, 0xbb, 0x52, 0xae, 0x67, 0x01, 20, 0xaf, 0x68] ∧
    (Evaluator.run ⟨.standard, .refuseAll, [], 0⟩ [[1]]
      [0x63, 0x00, 0x00, 0x01, 0xaa, 0x01, 0xbb, 0x52, 0xae, 0x67, 0x01, 20, 0xaf,
        0x68]).evaluator.opCount = 5 + 2 := by
  have hok : (Evaluator.run ⟨.standard, .refuseAll, [], 0⟩ [[1]]
      [0x63, 0x00, 0x00, 0x01, 0xaa, 0x01, 0xbb, 0x52, 0xae, 0x67, 0x01, 20, 0xaf, 0x68]).result =
      .ok () := by decide +kernel
  obtain ⟨-, hwellFormed, hcount, -⟩ := successful_run_certifies_script hok
  have hopcodes : (Script.instructions [0x63, 0x00, 0x00, 0x01, 0xaa, 0x01, 0xbb, 0x52, 0xae, 0x67,
      0x01, 20, 0xaf, 0x68]).countP Instruction.isCounted = 5 := by decide +kernel
  have hkeys : keysListed ⟨.standard, .refuseAll, [], 0⟩ [[1]] [0x63, 0x00, 0x00, 0x01, 0xaa, 0x01,
      0xbb, 0x52, 0xae, 0x67, 0x01, 20, 0xaf, 0x68] = 2 := by decide +kernel
  exact ⟨hok, hwellFormed, by rw [hcount, hopcodes, hkeys]⟩

end Evaluator

end SpendCheck
