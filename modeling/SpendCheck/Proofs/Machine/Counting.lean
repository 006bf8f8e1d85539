import SpendCheck.Proofs.Machine.Boundary
import SpendCheck.Proofs.Machine.Step

namespace SpendCheck.Machine

/-- What happens is what is expected, unless that counts more operations than are
allowed: then the evaluation fails for this reason. -/
inductive UpToCount (expected : Outcome Machine) : Outcome Machine → Prop
  | same (hroom : expected.state.opCount ≤ maxOperations) : UpToCount expected expected
  | tooMany (hmany : maxOperations < expected.state.opCount) (left : Machine) :
      UpToCount expected (.failed .opCount left)

variable {context : Context} {m m' : Machine} {expected actual first : Outcome Machine}

theorem UpToCount.of_eq (h : actual = expected) (hroom : expected.state.opCount ≤ maxOperations) :
    UpToCount expected actual := by
  rw [h]
  exact .same hroom

/-- The first part of a sequence may be replaced by what is expected of it, as the
operations that it counts stay counted. -/
theorem UpToCount.andThen {next : Machine → Outcome Machine} (h : UpToCount first actual)
    (hle : first.state.opCount ≤ expected.state.opCount)
    (hnext : first.state.opCount ≤ maxOperations → UpToCount expected (first.andThen next)) :
    UpToCount expected (actual.andThen next) := by
  cases h with
  | same hroom => exact hnext hroom
  | tooMany hmany left => exact .tooMany (Nat.lt_of_lt_of_le hmany hle) left

theorem upToCount_countOperations (m : Machine) (count : Nat) :
    UpToCount (.done { m with opCount := m.opCount + count }) (m.countOperations count) := by
  simp only [countOperations]
  split
  · next hmany =>
    apply UpToCount.tooMany
    exact hmany
  · next hroom =>
    apply UpToCount.same
    exact Nat.not_lt.1 hroom

/-- The machine behind instructions that are counted and not executed. -/
def passOver (instructions : List Instruction) (m : Machine) : Machine :=
  { m with
    opCount := m.opCount + instructions.countP Instruction.isCounted
    position := m.position + (instructions.flatMap Instruction.bytes).length }

@[simp] theorem passOver_conditions (instructions : List Instruction) :
    (m.passOver instructions).conditions = m.conditions := rfl

theorem passOver_append (before after : List Instruction) :
    m.passOver (before ++ after) = (m.passOver before).passOver after := by
  simp only [passOver, List.countP_append, List.flatMap_append, List.length_append, Nat.add_assoc]

theorem passOver_op (m : Machine) (opcode : Opcode) :
    m.passOver [.op opcode] =
      { m with
        opCount := m.opCount + if opcode.isCounted = true then 1 else 0
        position := m.position + 1 } := by
  simp only [passOver, List.countP_cons, List.countP_nil, Nat.zero_add]
  rfl

/-- The machine passes over instructions: they are counted, and then the conditions are
given ones. Nothing else changes. -/
def PassesOver (context : Context) (m : Machine) (instructions : List Instruction)
    (conditions : List Bool) : Prop :=
  UpToCount (.done { m.passOver instructions with conditions := conditions })
    (m.steps context instructions)

/-- Two stretches that are passed over one after the other are passed over as one. -/
theorem PassesOver.append {before after : List Instruction} {conditions left : List Bool}
    (h : m.PassesOver context before conditions)
    (hafter : m.opCount + before.countP Instruction.isCounted ≤ maxOperations →
      PassesOver context { m.passOver before with conditions := conditions } after left) :
    m.PassesOver context (before ++ after) left := by
  unfold PassesOver
  rw [passOver_append, steps_append]
  exact UpToCount.andThen h (Nat.le_add_right _ _) hafter

/-- An opcode is counted first, and then does what it does. -/
theorem upToCount_step_op {opcode : Opcode}
    (hroom : opcode.isCounted = false → m.opCount ≤ maxOperations)
    (hoperate : operate context (Operation.ofOpcode opcode) (m.passOver [.op opcode]) = .done m')
    (hcount : m'.opCount = (m.passOver [.op opcode]).opCount) (hdepth : m'.depth ≤ maxStackDepth) :
    UpToCount (.done m') (m.step context (.op opcode)) := by
  have hdone : (operate context (Operation.ofOpcode opcode) (m.passOver [.op opcode])).andThen
      checkDepth = .done m' := by
    rw [hoperate, Outcome.done_andThen, checkDepth_of_le hdepth]
  rw [passOver_op] at hcount hdone
  rw [step, perform, Outcome.andThen_assoc]
  cases hcounted : opcode.isCounted with
  | true =>
    rw [hcounted] at hcount hdone
    rw [if_pos rfl]
    exact (upToCount_countOperations _ 1).andThen (Nat.le_of_eq hcount.symm) fun hroom =>
      .of_eq hdone (hcount ▸ hroom)
  | false =>
    rw [hcounted] at hcount hdone
    exact .of_eq hdone (hcount ▸ hroom hcounted)

/-- The step of an opcode that acts on conditionals counts it and acts on them. -/
theorem upToCount_step_branching {opcode : Opcode} {kind : Branching}
    (hkind : Operation.ofOpcode opcode = .branching kind)
    (happly : kind.apply (m.passOver [.op opcode]) = .done m')
    (hdepth : m'.depth ≤ maxStackDepth) : UpToCount (.done m') (m.step context (.op opcode)) := by
  have hcounted : opcode.isCounted = true :=
    Operation.isCounted_of_ofOpcode (by simp [hkind]) (by simp [hkind])
  apply upToCount_step_op
  · simp [hcounted]
  · rw [hkind]
    exact happly
  · exact opCount_of_apply happly
  · exact hdepth

end SpendCheck.Machine
