import SpendCheck.Machine.Step

namespace SpendCheck

/-- The instruction counts as an operation, whether it is executed or not. -/
def Instruction.isCounted : Instruction → Bool
  | push _ _ => false
  | op opcode => opcode.isCounted

namespace Machine

variable {context : Context} {m m' : Machine}

theorem checkDepth_of_le (h : m.depth ≤ maxStackDepth) : m.checkDepth = .done m :=
  if_neg (Nat.not_lt.2 h)

theorem checkDepth_of_lt (h : maxStackDepth < m.depth) : m.checkDepth = .failed .stackSize m :=
  if_pos h

theorem checkDepth_eq_done_iff : m.checkDepth = .done m' ↔ m.depth ≤ maxStackDepth ∧ m' = m := by
  unfold checkDepth
  split
  · next hdeep => simp [Nat.not_le.2 hdeep]
  · next hlow => simp [Nat.not_lt.1 hlow, eq_comm]

theorem countOperations_of_le {count : Nat} (h : m.opCount + count ≤ maxOperations) :
    m.countOperations count = .done { m with opCount := m.opCount + count } :=
  if_neg (Nat.not_lt.2 h)

theorem countOperations_eq_done_iff {count : Nat} :
    m.countOperations count = .done m' ↔
      m.opCount + count ≤ maxOperations ∧ m' = { m with opCount := m.opCount + count } := by
  simp only [countOperations]
  split
  · next hmany => simp [Nat.not_le.2 hmany]
  · next hfew => simp [Nat.not_lt.1 hfew, eq_comm]

/-- Where the machine executes, the checks that are made in any case agree with
the operation itself. -/
theorem operate_of_executes (h : m.executes = true) (operation : Operation) :
    m.operate context operation = m.execute context operation := by
  cases operation <;> simp [operate, execute, h]

/-- An executed opcode is counted, then it takes effect, and then the depth is checked. -/
theorem step_op_of_executes (h : m.executes = true) {opcode : Opcode}
    (hcounted : opcode.isCounted = true) (hcount : m.opCount < maxOperations) :
    m.step context (.op opcode) =
      (Machine.execute context { m with position := m.position + 1, opCount := m.opCount + 1 }
        (Operation.ofOpcode opcode)).andThen checkDepth := by
  have hexecutes : Machine.executes
      { m with position := m.position + 1, opCount := m.opCount + 1 } = true := h
  have hroom : Machine.countOperations 1 { m with position := m.position + 1 } =
      .done { m with position := m.position + 1, opCount := m.opCount + 1 } :=
    countOperations_of_le hcount
  simp only [step, perform, Instruction.size, if_pos hcounted, hroom, Outcome.done_andThen,
    operate_of_executes hexecutes]

/-- An executed push places its payload, and then the depth is checked. -/
theorem step_push_of_executes (h : m.executes = true) {opcode : Opcode} {payload : Bytes}
    (hlength : payload.length ≤ maxElementSize) :
    m.step context (.push opcode payload) =
      Machine.checkDepth { m with
        position := m.position + (Instruction.push opcode payload).size
        stack := payload :: m.stack } := by
  have hexecutes : Machine.executes
      { m with position := m.position + (Instruction.push opcode payload).size } = true := h
  have hsmall : ¬maxElementSize < payload.length := Nat.not_lt.2 hlength
  have hpush : Machine.onStack { m with position := m.position + (Instruction.push opcode payload).size }
      (Stack.push payload) = .done _ := onStack_of_done (Stack.push_of_le hlength _)
  simp only [step, perform, pushPayload, if_neg hsmall, if_pos hexecutes, hpush, Outcome.done_andThen]

/-- An opcode that is counted needs room for it. The others always pass. -/
theorem count_eq_done_iff {opcode : Opcode} :
    (if opcode.isCounted = true then m.countOperations 1 else .done m) = .done m' ↔
      (opcode.isCounted = true → m.opCount < maxOperations) ∧
        m' = { m with opCount := m.opCount + if opcode.isCounted = true then 1 else 0 } := by
  cases opcode.isCounted with
  | true =>
    rw [if_pos rfl, if_pos rfl, countOperations_eq_done_iff]
    exact and_congr_left fun _ => ⟨fun hroom _ => hroom, fun hroom => hroom rfl⟩
  | false =>
    simp only [Bool.false_eq_true, if_false, Outcome.done.injEq, false_implies, true_and]
    exact eq_comm

/-- What an instruction does where it succeeds. Inside of a branch that is not taken
pushes are measured, operations are counted and conditionals are followed. -/
inductive Performs (context : Context) (m : Machine) : Instruction → Machine → Prop
  | push {opcode : Opcode} {payload : Bytes} (hsize : payload.length ≤ maxElementSize)
      (hexecutes : m.executes = true) :
      Performs context m (.push opcode payload) { m with stack := payload :: m.stack }
  | skipPush {opcode : Opcode} {payload : Bytes} (hsize : payload.length ≤ maxElementSize)
      (hskips : m.executes = false) : Performs context m (.push opcode payload) m
  | branch {opcode : Opcode} {kind : Branching} {m' : Machine}
      (hroom : opcode.isCounted = true → m.opCount < maxOperations)
      (hkind : Operation.ofOpcode opcode = .branching kind)
      (happly : kind.apply { m with opCount := m.opCount + if opcode.isCounted = true then 1 else 0 } =
        .done m') : Performs context m (.op opcode) m'
  | execute {opcode : Opcode} {m' : Machine}
      (hroom : opcode.isCounted = true → m.opCount < maxOperations)
      (hother : ∀ kind, Operation.ofOpcode opcode ≠ .branching kind) (hexecutes : m.executes = true)
      (hexecute : Machine.execute context
        { m with opCount := m.opCount + if opcode.isCounted = true then 1 else 0 }
        (Operation.ofOpcode opcode) = .done m') : Performs context m (.op opcode) m'
  | skip {opcode : Opcode} (hroom : opcode.isCounted = true → m.opCount < maxOperations)
      (hother : ∀ kind, Operation.ofOpcode opcode ≠ .branching kind)
      (henabled : Operation.ofOpcode opcode ≠ .disabled) (hskips : m.executes = false) :
      Performs context m (.op opcode)
        { m with opCount := m.opCount + if opcode.isCounted = true then 1 else 0 }

/-- An instruction that succeeds does one of the things that `Performs` lists. -/
theorem performs_of_perform {instruction : Instruction}
    (h : m.perform context instruction = .done m') : m.Performs context instruction m' := by
  cases instruction with
  | push opcode payload =>
    simp only [perform, pushPayload] at h
    split at h
    · cases h
    · next hshort =>
      have hsize := Nat.not_lt.1 hshort
      split at h
      · next hexecutes =>
        rw [onStack_of_done (Stack.push_of_le hsize _)] at h
        cases h
        exact .push hsize hexecutes
      · next hskips =>
        cases h
        exact .skipPush hsize (Bool.eq_false_iff.2 hskips)
  | op opcode =>
    obtain ⟨counted, hcount, hoperate⟩ := Outcome.andThen_eq_done_iff.1 h
    obtain ⟨hroom, rfl⟩ := count_eq_done_iff.1 hcount
    unfold operate at hoperate
    split at hoperate
    · cases hoperate
    · next kind hkind => exact .branch hroom hkind hoperate
    · next hdisabled hother =>
      -- Counting an operation changes no condition.
      change (if m.executes = true then _ else _) = _ at hoperate
      by_cases hexecutes : m.executes = true
      · rw [if_pos hexecutes] at hoperate
        exact .execute hroom hother hexecutes hoperate
      · rw [if_neg hexecutes] at hoperate
        cases hoperate
        exact .skip hroom hother hdisabled (Bool.eq_false_iff.2 hexecutes)

/-- A step that goes well is an instruction performed behind its bytes, after which the stacks
are not too deep. -/
theorem performs_of_step {instruction : Instruction} (h : m.step context instruction = .done m') :
    Performs context { m with position := m.position + instruction.size } instruction m' ∧
      m'.depth ≤ maxStackDepth := by
  obtain ⟨performed, hperform, hdepth⟩ := Outcome.andThen_eq_done_iff.1 h
  obtain ⟨hle, rfl⟩ := checkDepth_eq_done_iff.1 hdepth
  exact ⟨performs_of_perform hperform, hle⟩

end Machine

end SpendCheck
