import Mathlib.Tactic.Common
import SpendCheck.Proofs.Machine.Boundary
import SpendCheck.Proofs.Machine.Growth
import SpendCheck.Proofs.Machine.Step

namespace SpendCheck

namespace Machine

/-- The operations, the open conditionals and the place of the last separator are
accounted for. -/
structure Accounted (m : Machine) : Prop where
  opCount_le : m.opCount ≤ maxOperations
  conditions_le : m.conditions.length ≤ m.opCount
  separator_le : m.separator ≤ m.position

variable {context : Context} {m m' : Machine}

theorem Accounted.countOperations {count : Nat} (hm : m.Accounted)
    (h : m.countOperations count = .done m') : m'.Accounted := by
  obtain ⟨hroom, rfl⟩ := countOperations_eq_done_iff.1 h
  exact ⟨hroom, Nat.le_add_right_of_le hm.conditions_le, hm.separator_le⟩

/-- The stacks and the questions do not matter. -/
theorem Accounted.of_state {o : Outcome Machine} {stack altStack : Stack} {calls : List Call}
    (hm : m.Accounted)
    (hstate : o.state = { m with stack := stack, altStack := altStack, calls := calls })
    (h : o = .done m') : m'.Accounted := by
  subst h
  rw [Outcome.done_state] at hstate
  subst hstate
  exact ⟨hm.opCount_le, hm.conditions_le, hm.separator_le⟩

theorem Accounted.onStack {operation : Stack → Outcome Stack} (hm : m.Accounted)
    (h : m.onStack operation = .done m') : m'.Accounted :=
  hm.of_state (onStack_state m operation) h

theorem Accounted.checkSig (hm : m.Accounted) (h : m.checkSig context = .done m') :
    m'.Accounted := by
  obtain ⟨stack, calls, hstate⟩ := checkSig_state context m
  exact hm.of_state hstate h

/-- A multiple signature check counts its keys before it succeeds. -/
theorem Accounted.checkMultiSig (hm : m.Accounted) (h : m.checkMultiSig context = .done m') :
    m'.Accounted := by
  revert h
  apply checkMultiSig_cases (P := fun o => o = .done m' → m'.Accounted)
  · rintro e ⟨⟩
  · rintro e keyCount ⟨⟩
  · intro element below keyCount args _ _ hroom _ hsettle
    have hcounted : Accounted { m with opCount := m.opCount + keyCount } :=
      ⟨hroom, Nat.le_add_right_of_le hm.conditions_le, hm.separator_le⟩
    obtain ⟨stack, calls, hstate⟩ := settleMultiSig_state context
      { m with opCount := m.opCount + keyCount } args
    exact hcounted.of_state hstate hsettle

/-- Conditionals apart, operations open none. -/
theorem Accounted.execute {operation : Operation} (hm : m.Accounted)
    (hother : ∀ kind, operation ≠ .branching kind) (h : m.execute context operation = .done m') :
    m'.Accounted := by
  cases hacts : operation.actsOnStacks with
  | true =>
    obtain ⟨stack, altStack, hstate⟩ := execute_state_of_actsOnStacks context m hacts
    exact hm.of_state hstate h
  | false =>
    cases operation with
    | branching kind => exact absurd rfl (hother kind)
    | codeSeparator =>
      cases h
      exact ⟨hm.opCount_le, hm.conditions_le, Nat.le_refl _⟩
    | checkSig => exact hm.checkSig h
    | checkSigVerify =>
      obtain ⟨checked, hcheck, hverify⟩ := Outcome.andThen_eq_done_iff.1 h
      exact (hm.checkSig hcheck).onStack hverify
    | checkMultiSig => exact hm.checkMultiSig h
    | checkMultiSigVerify =>
      obtain ⟨checked, hcheck, hverify⟩ := Outcome.andThen_eq_done_iff.1 h
      exact (hm.checkMultiSig hcheck).onStack hverify
    | _ => cases hacts

/-- The opcode of a conditional is counted first, which makes room for one more. -/
theorem Accounted.branching {kind : Branching} (hm : m.Accounted)
    (hroom : m.conditions.length < m.opCount) (h : kind.apply m = .done m') : m'.Accounted := by
  revert h
  apply branching_cases (P := fun o => o = .done m' → m'.Accounted)
  · rintro e ⟨⟩
  · rintro stack conditions _ hconditions ⟨⟩
    exact ⟨hm.opCount_le, Nat.le_trans hconditions hroom, hm.separator_le⟩

/-- An operation leaves the machine accounted for, if one that may open a conditional has been
counted. -/
theorem Accounted.operate {operation : Operation} (hm : m.Accounted)
    (hroom : ∀ kind, operation = .branching kind → m.conditions.length < m.opCount)
    (h : m.operate context operation = .done m') : m'.Accounted := by
  unfold Machine.operate at h
  split at h
  · cases h
  · next kind => exact hm.branching (hroom kind rfl) h
  · next hother =>
    split at h
    · exact hm.execute hother h
    · -- Nothing is executed inside of a branch that is not taken.
      cases h
      exact hm

/-- An instruction counts itself before it does anything that has to be accounted for. -/
theorem Accounted.perform {instruction : Instruction} (hm : m.Accounted)
    (h : m.perform context instruction = .done m') : m'.Accounted := by
  cases instruction with
  | push opcode payload =>
    simp only [Machine.perform, pushPayload] at h
    split at h
    · cases h
    · split at h
      · exact hm.onStack h
      · cases h
        exact hm
  | op opcode =>
    obtain ⟨counted, hcounted, hoperate⟩ := Outcome.andThen_eq_done_iff.1 h
    split at hcounted
    · obtain ⟨-, hstate⟩ := countOperations_eq_done_iff.1 hcounted
      refine (hm.countOperations hcounted).operate (fun kind _ => ?_) hoperate
      rw [hstate]
      exact Nat.lt_add_one_of_le hm.conditions_le
    · -- An opcode that is not counted opens no conditional, so that it needs no room.
      next hfree =>
      cases hcounted
      refine hm.operate (fun kind hkind => absurd ?_ hfree) hoperate
      exact Operation.isCounted_of_ofOpcode (by simp [hkind]) (by simp [hkind])

/-- After a step the operations, the open conditionals and the last separator are still
accounted for. -/
theorem Accounted.step {instruction : Instruction} (hm : m.Accounted)
    (h : m.step context instruction = .done m') : m'.Accounted := by
  obtain ⟨performed, hperform, hdepth⟩ := Outcome.andThen_eq_done_iff.1 h
  obtain ⟨-, rfl⟩ := checkDepth_eq_done_iff.1 hdepth
  have hmoved : Accounted { m with position := m.position + instruction.size } :=
    ⟨hm.opCount_le, hm.conditions_le, Nat.le_add_right_of_le hm.separator_le⟩
  exact hmoved.perform hperform

/-- The limits that hold between two instructions. -/
structure WithinLimits (m : Machine) : Prop extends Accounted m where
  bounded : m.elements.Bounded maxStackDepth

/-- What a step leaves, whether it succeeds or fails. -/
theorem WithinLimits.step_state (hm : m.WithinLimits) (context : Context)
    (instruction : Instruction) :
    (m.step context instruction).state.elements.Bounded (maxStackDepth + 3) :=
  (grows_step context m instruction).bounded hm.bounded

/-- A step that succeeds keeps the limits. -/
theorem WithinLimits.step {instruction : Instruction} (hm : m.WithinLimits)
    (h : m.step context instruction = .done m') : m'.WithinLimits := by
  have hleft := hm.step_state context instruction
  rw [h] at hleft
  obtain ⟨-, hle⟩ := performs_of_step h
  exact ⟨hm.toAccounted.step h, ⟨length_elements m' ▸ hle, hleft.sized⟩⟩

end Machine

namespace Evaluator

variable {evaluator : Evaluator} {stack : Stack} {script : Script}
  {before after : List Instruction} {m : Machine}

theorem start_accounted (evaluator : Evaluator) (stack : Stack) :
    (evaluator.reset.start stack).Accounted where
  opCount_le := Nat.zero_le _
  conditions_le := Nat.le_refl 0
  separator_le := Nat.le_refl 0

theorem Passes.accounted (h : evaluator.Passes stack script before after m) : m.Accounted :=
  h.induction (start_accounted evaluator stack) fun _ _ _ hm hstep => hm.step hstep

theorem start_withinLimits (hstack : stack.Bounded maxStackDepth) :
    (evaluator.reset.start stack).WithinLimits :=
  ⟨start_accounted evaluator stack, by simpa [Machine.elements, start] using hstack⟩

theorem Passes.withinLimits (hstack : stack.Bounded maxStackDepth)
    (h : evaluator.Passes stack script before after m) : m.WithinLimits :=
  h.induction (start_withinLimits hstack) fun _ _ _ hm hstep => hm.step hstep

/-- The limits of a script hold all along its evaluation. On a stack that keeps
them, both stacks together, their elements, the counted operations, the open
conditionals and the place of the last separator keep to their limits between
any two instructions. Success leaves a stack that keeps them and no open
conditional, and a failure leaves at most three elements too many and none too
long. The evaluator may hold whatever earlier evaluations left in it. -/
theorem run_keeps_limits (evaluator : Evaluator) (stack : Stack) (script : Script)
    (hstack : stack.Bounded maxStackDepth) :
    (∀ before after m, evaluator.Passes stack script before after m →
      (m.stack ++ m.altStack).Bounded maxStackDepth ∧
        m.opCount ≤ maxOperations ∧
        m.conditions.length ≤ m.opCount ∧
        m.separator ≤ m.position ∧
        m.position = (before.flatMap Instruction.bytes).length) ∧
    ((evaluator.run stack script).result = .ok () →
      (evaluator.run stack script).stack.Bounded maxStackDepth ∧
        (evaluator.run stack script).evaluator.conditions = []) ∧
    (∀ e, (evaluator.run stack script).result = .error e →
      (evaluator.run stack script).stack.Bounded (maxStackDepth + 3)) := by
  refine ⟨?_, ?_, ?_⟩
  · intro before after m hpasses
    have hm := hpasses.withinLimits hstack
    exact ⟨hm.bounded, hm.opCount_le, hm.conditions_le, hm.separator_le, hpasses.position_eq⟩
  · intro hok
    obtain ⟨m, hpasses, hstate, hclosed⟩ := passes_end_of_run_eq_ok hok
    have hm := hpasses.withinLimits hstack
    rw [hstate]
    exact ⟨hm.bounded.of_append_left, hclosed⟩
  · intro e _
    by_contra hlarge
    obtain ⟨before, instruction, after, m, hpasses, -, hleft⟩ := exists_passes_of_run
      (P := fun left _ => ¬left.Bounded (maxStackDepth + 3)) hlarge
      (not_not_intro (hstack.mono (Nat.le_add_right maxStackDepth 3)))
    -- Inside of a step the stack may be larger than the limits between two of them.
    have hm := hpasses.withinLimits hstack
    exact hleft (hm.step_state (evaluator.context script) instruction).of_append_left

/-- A separator inside of a conditional, and three elements of a full stack
copied: the limits hold where the conditional is open, and the failure leaves as
many elements as a failure may. -/
theorem full_stack_copied_keeps_limits :
    (∃ m, Evaluator.Passes ⟨.standard, .refuseAll, [false], 7⟩ [[1]] [0x63, 0xab, 0x68]
        [.op 0x63, .op 0xab] [.op 0x68] m ∧
      m.conditions = [true] ∧ m.separator = 2 ∧
      m.conditions.length ≤ m.opCount ∧ m.separator ≤ m.position) ∧
    (Evaluator.run ⟨.standard, .refuseAll, [false], 7⟩ [[1]] [0x63, 0xab, 0x68]).evaluator.conditions =
      [] ∧
    (Evaluator.run ⟨.standard, .refuseAll, [false], 7⟩ (List.replicate maxStackDepth [])
      [0x6f]).stack.length = maxStackDepth + 3 ∧
    (Evaluator.run ⟨.standard, .refuseAll, [false], 7⟩ (List.replicate maxStackDepth [])
      [0x6f]).stack.Bounded (maxStackDepth + 3) := by
  obtain ⟨hplaces, hsuccess, -⟩ := run_keeps_limits ⟨.standard, .refuseAll, [false], 7⟩ [[1]]
    [0x63, 0xab, 0x68] ⟨by decide, by decide⟩
  obtain ⟨-, -, hfailure⟩ := run_keeps_limits ⟨.standard, .refuseAll, [false], 7⟩
    (List.replicate maxStackDepth []) [0x6f] ⟨by decide +kernel, by simp⟩
  have hopen : Evaluator.Passes ⟨.standard, .refuseAll, [false], 7⟩ [[1]] [0x63, 0xab, 0x68]
      [.op 0x63, .op 0xab] [.op 0x68]
      { stack := [], conditions := [true], opCount := 2, separator := 2, position := 2 } :=
    ⟨by decide, by decide +kernel, rfl⟩
  obtain ⟨-, -, hconditions, hseparator, -⟩ := hplaces _ _ _ hopen
  exact ⟨⟨_, hopen, rfl, rfl, hconditions, hseparator⟩, (hsuccess (by decide +kernel)).2,
    by decide +kernel, hfailure .stackSize (by decide +kernel)⟩

end Evaluator

end SpendCheck
