import SpendCheck.Proofs.Machine.Boundary
import SpendCheck.Proofs.Machine.Step
import SpendCheck.Proofs.Script.Nesting

namespace SpendCheck.Machine

variable {context : Context} {m m' : Machine} {instruction : Instruction} {instructions : List Instruction}

/-- The opcodes of conditionals open and close as many as the nesting of a script counts for
them. -/
theorem length_conditions_of_apply {kind : Branching} (h : kind.apply m = .done m') :
    (m'.conditions.length : Int) = m.conditions.length + kind.nesting := by
  have hopen : ∀ expected, m.openConditional expected = .done m' →
      m'.conditions.length = m.conditions.length + 1 := by
    intro expected h
    unfold openConditional at h
    split at h
    · split at h
      · cases h
      · cases h
        rfl
    · cases h
      rfl
  cases kind with
  | ifTrue => simpa [Branching.nesting] using congrArg Int.ofNat (hopen true h)
  | ifFalse => simpa [Branching.nesting] using congrArg Int.ofNat (hopen false h)
  | otherwise =>
    simp only [Branching.apply] at h
    split at h
    · cases h
    · next hconditions =>
      cases h
      simp [hconditions, Branching.nesting]
  | endIf =>
    simp only [Branching.apply] at h
    split at h
    · cases h
    · next condition outer hconditions =>
      cases h
      have hlength := congrArg List.length hconditions
      rw [List.length_cons] at hlength
      change (outer.length : Int) = m.conditions.length + -1
      omega

theorem conditions_ne_nil_of_apply_otherwise (h : Branching.otherwise.apply m = .done m') :
    m.conditions ≠ [] := by
  intro hnone
  simp [Branching.apply, hnone] at h

/-- No other operation opens or closes a conditional. -/
theorem conditions_of_execute {operation : Operation}
    (hother : ∀ kind, operation ≠ .branching kind) (h : m.execute context operation = .done m') :
    m'.conditions = m.conditions := by
  by_cases hseparator : operation = .codeSeparator
  · rw [hseparator] at h
    cases h
    rfl
  · obtain ⟨stack, altStack, opCount, calls, -, hstate⟩ :=
      execute_state_of_ne context m hother hseparator
    rw [h, Outcome.done_state] at hstate
    rw [hstate]

/-- Executed or not, an instruction opens and closes as many conditionals as the nesting counts
for it. -/
theorem length_conditions_of_step (h : m.step context instruction = .done m') :
    (m'.conditions.length : Int) = m.conditions.length + instruction.nesting := by
  obtain ⟨hperforms, -⟩ := performs_of_step h
  cases hperforms with
  | push => simp [Instruction.nesting, Instruction.branching?]
  | skipPush => simp [Instruction.nesting, Instruction.branching?]
  | branch _ hkind happly =>
    have hlength := length_conditions_of_apply happly
    rw [Instruction.nesting_of_ofOpcode hkind]
    exact hlength
  | execute _ hother _ hexecute =>
    rw [conditions_of_execute hother hexecute, Instruction.nesting_eq_zero hother]
    exact (Int.add_zero _).symm
  | skip _ hother _ _ =>
    rw [Instruction.nesting_eq_zero hother]
    exact (Int.add_zero _).symm

/-- The open conditionals are as many as the instructions so far have opened and not
closed. -/
theorem length_conditions_of_steps (h : m.steps context instructions = .done m') :
    (m'.conditions.length : Int) = m.conditions.length + Script.nesting instructions := by
  induction instructions generalizing m with
  | nil =>
    cases h
    simp
  | cons instruction rest ih =>
    obtain ⟨stepped, hstep, hrest⟩ := Outcome.andThen_eq_done_iff.1 h
    rw [ih hrest, length_conditions_of_step hstep, Script.nesting_cons]
    omega

/-- To turn to the other branch takes an open conditional. -/
theorem conditions_ne_nil_of_turn (hturn : instruction.branching? = some .otherwise)
    (h : m.step context instruction = .done m') : m.conditions ≠ [] := by
  obtain ⟨hperforms, -⟩ := performs_of_step h
  cases hperforms with
  | push => simp [Instruction.branching?] at hturn
  | skipPush => simp [Instruction.branching?] at hturn
  | branch _ hkind happly =>
    rw [Instruction.branching?_of_ofOpcode hkind] at hturn
    cases hturn
    have hopen := conditions_ne_nil_of_apply_otherwise happly
    exact hopen
  | execute _ hother _ _ => simp [Instruction.branching?_eq_none hother] at hturn
  | skip _ hother _ _ => simp [Instruction.branching?_eq_none hother] at hturn

end SpendCheck.Machine
