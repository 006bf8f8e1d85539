import SpendCheck.Proofs.Machine.Certificate
import SpendCheck.Proofs.Machine.Enclosing
import SpendCheck.Proofs.Machine.Skipping
import SpendCheck.Proofs.Script.Decoding

namespace SpendCheck

/-- The opcode that acts on conditionals in a given way. -/
def Branching.opcode : Branching → Opcode
  | ifTrue => 0x63
  | ifFalse => 0x64
  | otherwise => 0x67
  | endIf => 0x68

@[simp] theorem Operation.ofOpcode_branching (kind : Branching) :
    Operation.ofOpcode kind.opcode = .branching kind := by
  cases kind <;> decide

@[simp] theorem Branching.isCounted_opcode (kind : Branching) : kind.opcode.isCounted = true := by
  cases kind <;> decide

/-- The conditional whose first branch is taken on an expected truth value. -/
def Branching.opening (expected : Bool) : Branching :=
  if expected then ifTrue else ifFalse

namespace Script

/-- A conditional with two branches. -/
def conditional (expected : Bool) (first second : Script) : Script :=
  (Branching.opening expected).opcode :: first ++
    Branching.otherwise.opcode :: second ++ [Branching.endIf.opcode]

theorem decode_branching_cons (kind : Branching) (rest : Script) :
    decode (kind.opcode :: rest) = (.op kind.opcode :: (decode rest).1, (decode rest).2) := by
  have hvalid : (Instruction.op kind.opcode).IsValid := by cases kind <;> decide
  exact decode_bytes_append hvalid rest

/-- A conditional around two whole scripts has their instructions between its own three. -/
theorem instructions_conditional {first second : Script} (hfirst : first.tail = [])
    (hsecond : second.tail = []) (expected : Bool) :
    (conditional expected first second).instructions =
      [.op (Branching.opening expected).opcode] ++ first.instructions ++
        [.op Branching.otherwise.opcode] ++ second.instructions ++ [.op Branching.endIf.opcode] := by
  simp only [conditional, instructions, List.cons_append, List.append_assoc, List.nil_append,
    decode_branching_cons, decode_append hfirst, decode_append hsecond, decode_nil]

end Script

namespace Machine

variable (context : Context) {m : Machine} {condition : Bool} {others : List Bool}

theorem depth_le_of_stack_eq_cons {element : Bytes} {rest : Stack} (h : m.stack = element :: rest)
    (hdepth : m.depth ≤ maxStackDepth) : rest.length + m.altStack.length ≤ maxStackDepth := by
  rw [depth, h, List.length_cons] at hdepth
  omega

/-- The opcode that opens a conditional is counted and takes the top element away. -/
theorem upToCount_step_opening {element : Bytes} {rest : Stack} (hexecutes : m.executes = true)
    (hstack : m.stack = element :: rest) (hdepth : m.depth ≤ maxStackDepth) (expected : Bool) :
    UpToCount
      (.done { m.passOver [.op (Branching.opening expected).opcode] with
        stack := rest
        conditions := (Number.truthy element == expected) :: m.conditions })
      (m.step context (.op (Branching.opening expected).opcode)) := by
  have hopen : (m.passOver [.op (Branching.opening expected).opcode]).openConditional expected =
      .done { m.passOver [.op (Branching.opening expected).opcode] with
        stack := rest
        conditions := (Number.truthy element == expected) :: m.conditions } := by
    have hexecutes' : (m.passOver [.op (Branching.opening expected).opcode]).executes = true := hexecutes
    have hstack' : (m.passOver [.op (Branching.opening expected).opcode]).stack = element :: rest := hstack
    rw [openConditional, if_pos hexecutes', hstack']
    rfl
  have hshallow := depth_le_of_stack_eq_cons hstack hdepth
  refine upToCount_step_branching (Operation.ofOpcode_branching _) ?_ hshallow
  cases expected <;> exact hopen

/-- The middle opcode of a conditional turns the innermost condition. -/
theorem passesOver_otherwise (h : m.conditions = condition :: others)
    (hdepth : m.depth ≤ maxStackDepth) :
    m.PassesOver context [.op Branching.otherwise.opcode] ((!condition) :: others) := by
  unfold PassesOver
  rw [steps_singleton]
  refine upToCount_step_branching (Operation.ofOpcode_branching _) ?_ hdepth
  simp only [Branching.apply, passOver_conditions, h]

/-- The last opcode of a conditional takes the innermost condition away. -/
theorem passesOver_endIf (h : m.conditions = condition :: others)
    (hdepth : m.depth ≤ maxStackDepth) :
    m.PassesOver context [.op Branching.endIf.opcode] others := by
  unfold PassesOver
  rw [steps_singleton]
  refine upToCount_step_branching (Operation.ofOpcode_branching _) ?_ hdepth
  simp only [Branching.apply, passOver_conditions, h]

/-- In front of its second branch a conditional that does not take the first one passes
over it. -/
theorem passesOver_first {first : Script} (h : m.conditions = false :: others)
    (hdepth : m.depth ≤ maxStackDepth) (hroom : m.opCount ≤ maxOperations)
    (hfirst : first.WellFormed) :
    m.PassesOver context (first.instructions ++ [.op Branching.otherwise.opcode])
      (true :: others) := by
  have hskips : m.executes = false := by rw [executes, h]; rfl
  have hskip : m.PassesOver context first.instructions (false :: others) :=
    h ▸ passesOver_of_skips hskips hdepth hroom hfirst
  exact hskip.append fun _ =>
    passesOver_otherwise context (m := { m.passOver first.instructions with conditions := false :: others })
      rfl hdepth

/-- Behind its first branch a conditional that has taken it passes over the second one. -/
theorem passesOver_second {second : Script} (h : m.conditions = true :: others)
    (hdepth : m.depth ≤ maxStackDepth) (hsecond : second.WellFormed) :
    m.PassesOver context
      ([.op Branching.otherwise.opcode] ++ second.instructions ++ [.op Branching.endIf.opcode])
      others := by
  have hturn := passesOver_otherwise context h hdepth
  have hskip := hturn.append fun hroom => passesOver_of_skips rfl hdepth hroom hsecond
  exact hskip.append fun _ => passesOver_endIf context rfl hdepth

theorem conditions_inside_length {count : Nat} :
    (m.inside m.conditions.length count).conditions = true :: m.conditions := by
  simp [inside]

/-- What a conditional leaves, from what its branch that is taken leaves by itself:
`before` operations more have been counted in front of the branch and `after` behind it,
and `size` bytes are behind it. A branch that fails leaves the conditional open, above
the `outer` ones around it. -/
def aroundBranch (outer before after size : Nat) : Outcome Machine → Outcome Machine
  | .done m => .done { m with opCount := m.opCount + before + after, position := m.position + size }
  | .failed e m => .failed e (m.inside outer before)

theorem le_aroundBranch_opCount (outer before after size : Nat) (o : Outcome Machine) :
    o.state.opCount + before ≤ (aroundBranch outer before after size o).state.opCount := by
  cases o with
  | done m => exact Nat.le_add_right _ _
  | failed e m => exact Nat.le_refl _

/-- A branch that is entered does what it does by itself, and then the conditional
passes over what is behind it. -/
theorem upToCount_aroundBranch {front : Outcome Machine} {branch behind : List Instruction}
    {before : Nat} (hfront : UpToCount (.done (m.inside m.conditions.length before)) front)
    (hdepth : m.depth ≤ maxStackDepth) (hbranch : Script.Balanced branch)
    (hbehind : ∀ left : Machine, left.depth ≤ maxStackDepth →
      (left.inside left.conditions.length before).PassesOver context behind left.conditions) :
    UpToCount
      (aroundBranch m.conditions.length before (behind.countP Instruction.isCounted)
        (behind.flatMap Instruction.bytes).length (m.steps context branch))
      (front.andThen (steps context (branch ++ behind))) := by
  have hcount := le_aroundBranch_opCount m.conditions.length before
    (behind.countP Instruction.isCounted) (behind.flatMap Instruction.bytes).length
    (m.steps context branch)
  refine hfront.andThen ?_ fun hroom => ?_
  · exact Nat.le_trans (Nat.add_le_add_right (le_steps_opCount context m branch) before) hcount
  have hbalanced : Script.BalancedFrom (m.conditions.length - m.conditions.length) branch := by
    rwa [Int.sub_self]
  have hinside := steps_inside context hroom hbalanced
  rw [Outcome.done_andThen, steps_append]
  refine hinside.andThen ?_ fun hroom => ?_
  · rw [Outcome.map_state]
    exact hcount
  cases hleft : m.steps context branch with
  | failed e left =>
    rw [hleft] at hroom
    exact .same hroom
  | done left =>
    -- The branch has closed what it has opened, so that the conditional is on top again.
    have hlength := length_conditions_of_steps hleft
    have hclosed := hbranch.closed
    have hshallow : left.depth ≤ maxStackDepth :=
      steps_induction (P := fun m => m.depth ≤ maxStackDepth)
        (fun _ _ _ _ hstep => (performs_of_step hstep).2) hdepth hleft
    have hsame : left.conditions.length = m.conditions.length := by omega
    have hpasses := hbehind left hshallow
    rw [hsame] at hpasses
    exact hpasses

variable {element : Bytes} {rest : Stack} {first second : Script} {expected : Bool}

/-- Where the first branch is taken, it is evaluated as by itself, and the second one is passed
over. -/
theorem upToCount_steps_first (hexecutes : m.executes = true) (hstack : m.stack = element :: rest)
    (hdepth : m.depth ≤ maxStackDepth) (hfirst : first.WellFormed) (hsecond : second.WellFormed)
    (htaken : Number.truthy element = expected) :
    UpToCount
      (aroundBranch m.conditions.length 1 (2 + second.instructions.countP Instruction.isCounted)
        (second.length + 2)
        (steps context first.instructions { m with stack := rest, position := m.position + 1 }))
      (m.steps context (Script.conditional expected first second).instructions) := by
  have hopen := upToCount_step_opening context hexecutes hstack hdepth expected
  have hentered : { m.passOver [.op (Branching.opening expected).opcode] with
        stack := rest
        conditions := (Number.truthy element == expected) :: m.conditions } =
      inside m.conditions.length 1 { m with stack := rest, position := m.position + 1 } := by
    simp [inside, passOver_op, htaken]
  rw [hentered] at hopen
  have hshallow := depth_le_of_stack_eq_cons hstack hdepth
  have haround := upToCount_aroundBranch context
    (m := { m with stack := rest, position := m.position + 1 }) hopen hshallow hfirst.balanced
    fun left hshallow => passesOver_second context conditions_inside_length hshallow hsecond
  have hcount : List.countP Instruction.isCounted
      ([.op Branching.otherwise.opcode] ++ second.instructions ++ [.op Branching.endIf.opcode]) =
      2 + second.instructions.countP Instruction.isCounted := by
    simp only [List.countP_append, List.countP_singleton, Instruction.isCounted,
      Branching.isCounted_opcode, if_true]
    omega
  have hsize : (List.flatMap Instruction.bytes ([.op Branching.otherwise.opcode] ++
      second.instructions ++ [.op Branching.endIf.opcode])).length = second.length + 2 := by
    rw [List.flatMap_append, List.flatMap_append,
      Script.flatMap_instructions_of_tail_eq_nil hsecond.whole, List.length_append, List.length_append]
    exact Nat.add_comm 1 (second.length + 1)
  rw [hcount, hsize] at haround
  rw [Script.instructions_conditional hfirst.whole hsecond.whole]
  simp only [List.append_assoc] at haround ⊢
  rw [steps_append, steps_singleton]
  exact haround

/-- Where the second branch is taken, the first one is passed over before it. -/
theorem upToCount_steps_second (hexecutes : m.executes = true) (hstack : m.stack = element :: rest)
    (hdepth : m.depth ≤ maxStackDepth) (hfirst : first.WellFormed) (hsecond : second.WellFormed)
    (hskipped : Number.truthy element ≠ expected) :
    UpToCount
      (aroundBranch m.conditions.length (2 + first.instructions.countP Instruction.isCounted) 1 1
        (steps context second.instructions
          { m with stack := rest, position := m.position + first.length + 2 }))
      (m.steps context (Script.conditional expected first second).instructions) := by
  have hopen := upToCount_step_opening context hexecutes hstack hdepth expected
  have hshallow := depth_le_of_stack_eq_cons hstack hdepth
  rw [beq_eq_false_iff_ne.2 hskipped] at hopen
  have hfront : UpToCount
      (.done (inside m.conditions.length (2 + first.instructions.countP Instruction.isCounted)
        { m with stack := rest, position := m.position + first.length + 2 }))
      (m.steps context ([.op (Branching.opening expected).opcode] ++
        (first.instructions ++ [.op Branching.otherwise.opcode]))) := by
    have hentered : { Machine.passOver (first.instructions ++ [.op Branching.otherwise.opcode])
          { m.passOver [.op (Branching.opening expected).opcode] with
            stack := rest
            conditions := false :: m.conditions } with
          conditions := true :: m.conditions } =
        inside m.conditions.length (2 + first.instructions.countP Instruction.isCounted)
          { m with stack := rest, position := m.position + first.length + 2 } := by
      have hcount : m.opCount + 1 + (first.instructions.countP Instruction.isCounted + 1) =
          m.opCount + (2 + first.instructions.countP Instruction.isCounted) := by
        omega
      have hsize : m.position + 1 + (first.length + 1) = m.position + first.length + 2 := by
        omega
      simp [inside, passOver, Instruction.isCounted, Instruction.bytes,
        Script.flatMap_instructions_of_tail_eq_nil hfirst.whole, hcount, hsize]
    rw [← hentered, steps_append, steps_singleton]
    refine hopen.andThen (Nat.le_add_right _ _) fun hroom => ?_
    exact passesOver_first context rfl hshallow hroom hfirst
  have haround := upToCount_aroundBranch context
    (m := { m with stack := rest, position := m.position + first.length + 2 }) hfront
    hshallow hsecond.balanced
    fun left hshallow => passesOver_endIf context conditions_inside_length hshallow
  rw [← steps_append] at haround
  rw [Script.instructions_conditional hfirst.whole hsecond.whole]
  simp only [List.append_assoc] at haround ⊢
  exact haround

/-- Where the machine executes, a conditional does what its branch that is taken does by
itself at its place, with the element on top taken away. The stacks, the conditions, the
separator, the questions and the reason of a failure are the same. Counted are also the
three opcodes of the conditional and the opcodes of the other branch, as far as they come
before the end, and if that is too many the evaluation fails for this reason. After a
failure the conditional is still open. A script that is in order by itself is only passed
over where nothing is executed. -/
theorem conditional_executes_one_branch (context : Context) {m : Machine} {element : Bytes}
    {rest : Stack} {first second : Script} (expected : Bool) (hexecutes : m.executes = true)
    (hstack : m.stack = element :: rest) (hdepth : m.depth ≤ maxStackDepth)
    (hfirst : first.WellFormed) (hsecond : second.WellFormed) :
    (Number.truthy element = expected →
      UpToCount
        (aroundBranch m.conditions.length 1 (2 + second.instructions.countP Instruction.isCounted)
          (second.length + 2)
          (steps context first.instructions { m with stack := rest, position := m.position + 1 }))
        (m.steps context (Script.conditional expected first second).instructions)) ∧
    (Number.truthy element ≠ expected →
      UpToCount
        (aroundBranch m.conditions.length (2 + first.instructions.countP Instruction.isCounted) 1 1
          (steps context second.instructions
            { m with stack := rest, position := m.position + first.length + 2 }))
        (m.steps context (Script.conditional expected first second).instructions)) ∧
    ∀ skipping : Machine, skipping.executes = false → skipping.depth ≤ maxStackDepth →
      skipping.opCount ≤ maxOperations →
      UpToCount (.done (skipping.passOver first.instructions))
        (skipping.steps context first.instructions) :=
  ⟨upToCount_steps_first context hexecutes hstack hdepth hfirst hsecond,
    upToCount_steps_second context hexecutes hstack hdepth hfirst hsecond,
    fun _ hskips hdepth hroom => passesOver_of_skips hskips hdepth hroom hfirst⟩

/-- The branch that is not taken turns a conditional of its own twice and marks a place
there: that counts five operations and marks nothing. -/
theorem conditional_skips_nested_separator :
    UpToCount (.done ⟨[[2]], [], [], 8, 0, 10, []⟩)
      (steps ⟨.standard, .refuseAll, []⟩
        (Script.conditional true [0x01, 0x02] [0x63, 0x67, 0x67, 0xab, 0x68]).instructions
        { stack := [[1]] }) := by
  have hdecoded : Script.instructions [0x01, 0x02] = [.push 0x01 [0x02]] := by decide +kernel
  have hdecoded' : Script.instructions [0x63, 0x67, 0x67, 0xab, 0x68] =
      [.op 0x63, .op 0x67, .op 0x67, .op 0xab, .op 0x68] := by decide +kernel
  have hfirst : Evaluator.Passes ⟨.standard, .refuseAll, [], 0⟩ [] [0x01, 0x02]
      (Script.instructions [0x01, 0x02]) [] { stack := [[2]], position := 2 } :=
    ⟨by decide, by simp, by rw [hdecoded]; rfl⟩
  have hsecond : Evaluator.Passes ⟨.standard, .refuseAll, [], 0⟩ [[1]]
      [0x63, 0x67, 0x67, 0xab, 0x68] (Script.instructions [0x63, 0x67, 0x67, 0xab, 0x68]) []
      { stack := [], opCount := 5, separator := 4, position := 5 } :=
    ⟨by decide, by simp, by rw [hdecoded']; rfl⟩
  have hleaves := (conditional_executes_one_branch ⟨.standard, .refuseAll, []⟩ (m := { stack := [[1]] })
    true rfl rfl (by decide) (hfirst.wellFormed (by decide +kernel) rfl)
    (hsecond.wellFormed (by decide +kernel) rfl)).1 rfl
  rw [hdecoded, hdecoded'] at hleaves
  exact hleaves

end Machine

end SpendCheck
