import SpendCheck.Proofs.Machine.Counting
import SpendCheck.Proofs.Script.Nesting

namespace SpendCheck.Machine

variable {context : Context} {m : Machine} {own outer : List Bool} {instruction : Instruction}

/-- A conditional that is not taken stays as it is inside of it, whatever opens, turns
and closes there. -/
theorem executes_of_append (houter : outer.all id = false) (h : m.conditions = own ++ outer) :
    m.executes = false := by
  rw [executes, h, List.all_append, houter, Bool.and_false]

/-- Where nothing is executed, the opcodes of conditionals change only conditionals
that are opened there. -/
theorem apply_of_append (kind : Branching) (houter : outer.all id = false)
    (h : m.conditions = own ++ outer)
    (hinside : kind = .otherwise ∨ kind = .endIf → own ≠ []) :
    ∃ changed : List Bool, (changed.length : Int) = own.length + kind.nesting ∧
      kind.apply m = .done { m with conditions := changed ++ outer } := by
  have hopen : ∀ expected, m.openConditional expected =
      .done { m with conditions := (false :: own) ++ outer } := by
    intro expected
    simp [openConditional, executes_of_append houter h, h]
  cases kind with
  | ifTrue => exact ⟨false :: own, by simp [Branching.nesting], hopen true⟩
  | ifFalse => exact ⟨false :: own, by simp [Branching.nesting], hopen false⟩
  | otherwise =>
    obtain ⟨condition, others, rfl⟩ := List.exists_cons_of_ne_nil (hinside (.inl rfl))
    exact ⟨(!condition) :: others, by simp [Branching.nesting], by simp [Branching.apply, h]⟩
  | endIf =>
    obtain ⟨condition, others, rfl⟩ := List.exists_cons_of_ne_nil (hinside (.inr rfl))
    refine ⟨others, ?_, by simp [Branching.apply, h]⟩
    rw [List.length_cons, Branching.nesting]
    omega

/-- Outside the taken branch only conditionals and disabled opcodes have an effect. -/
theorem operate_of_skips {operation : Operation} (hskips : m.executes = false)
    (henabled : operation ≠ .disabled) (hother : ∀ kind, operation ≠ .branching kind) :
    m.operate context operation = .done m := by
  cases operation with
  | disabled => exact absurd rfl henabled
  | branching kind => exact absurd rfl (hother kind)
  | _ => simp [operate, hskips]

theorem step_push_of_skips {opcode : Opcode} {payload : Bytes} (hskips : m.executes = false)
    (hsize : payload.length ≤ maxElementSize) (hdepth : m.depth ≤ maxStackDepth) :
    m.step context (.push opcode payload) = .done (m.passOver [.push opcode payload]) := by
  have hskips' : Machine.executes
      { m with position := m.position + (Instruction.push opcode payload).size } = false := hskips
  rw [step, perform, pushPayload, if_neg (Nat.not_lt.2 hsize), hskips', passOver, List.flatMap_singleton,
    Instruction.length_bytes]
  exact checkDepth_of_le hdepth

/-- An instruction that is not executed changes at most conditionals that are opened
where it stands. -/
theorem passesOver_instruction (context : Context) (houter : outer.all id = false)
    (h : m.conditions = own ++ outer) (hdepth : m.depth ≤ maxStackDepth)
    (hroom : m.opCount ≤ maxOperations) (hadmissible : instruction.IsAdmissible)
    (hinside : instruction.branching? = some .otherwise ∨ instruction.branching? = some .endIf →
      own ≠ []) :
    ∃ changed : List Bool, (changed.length : Int) = own.length + instruction.nesting ∧
      m.PassesOver context [instruction] (changed ++ outer) := by
  unfold PassesOver
  rw [steps_singleton]
  cases instruction with
  | push opcode payload =>
    have hskips := executes_of_append houter h
    refine ⟨own, (Int.add_zero _).symm, .of_eq ?_ hroom⟩
    rw [step_push_of_skips hskips hadmissible hdepth, ← h]
    rfl
  | op opcode =>
    have hpassed : (m.passOver [.op opcode]).conditions = own ++ outer := h
    by_cases hbranching : ∃ kind, Operation.ofOpcode opcode = .branching kind
    · obtain ⟨kind, hkind⟩ := hbranching
      rw [Instruction.branching?_of_ofOpcode hkind, Option.some_inj, Option.some_inj] at hinside
      obtain ⟨changed, hlength, happly⟩ := apply_of_append kind houter hpassed hinside
      refine ⟨changed, ?_, upToCount_step_branching hkind happly hdepth⟩
      rw [hlength, Instruction.nesting_of_ofOpcode hkind]
    · have hother := not_exists.1 hbranching
      have hoperate : (m.passOver [.op opcode]).operate context (Operation.ofOpcode opcode) =
          .done (m.passOver [.op opcode]) :=
        operate_of_skips (executes_of_append houter hpassed) hadmissible hother
      refine ⟨own, ?_, ?_⟩
      · rw [Instruction.nesting_eq_zero hother]
        exact (Int.add_zero _).symm
      · rw [← h]
        exact upToCount_step_op (fun _ => hroom) hoperate rfl hdepth

/-- Instructions that are not executed close what they open, and leave the conditionals
around them as they are. -/
theorem passesOver_instructions {instructions : List Instruction} (houter : outer.all id = false)
    (h : m.conditions = own ++ outer) (hdepth : m.depth ≤ maxStackDepth)
    (hroom : m.opCount ≤ maxOperations)
    (hadmissible : ∀ instruction ∈ instructions, instruction.IsAdmissible)
    (hbalanced : Script.BalancedFrom own.length instructions) :
    m.PassesOver context instructions outer := by
  -- The own conditionals are not all false: an inner one that is turned becomes true.
  induction instructions generalizing m own with
  | nil =>
    have hclosed := hbalanced.closed
    simp only [Script.nesting_nil, Int.add_zero, Int.natCast_eq_zero, List.length_eq_zero_iff] at hclosed
    rw [hclosed, List.nil_append] at h
    rw [← h]
    exact .same hroom
  | cons instruction rest ih =>
    have hinside : instruction.branching? = some .otherwise ∨ instruction.branching? = some .endIf →
        own ≠ [] := by
      intro hkind
      have hopen := hbalanced.pos_of_cons hkind
      rintro rfl
      simp at hopen
    obtain ⟨changed, hlength, hfirst⟩ := passesOver_instruction context houter h hdepth hroom
      (hadmissible instruction List.mem_cons_self) hinside
    have hrest := hbalanced.of_cons
    rw [← hlength] at hrest
    exact hfirst.append fun hroom => ih rfl hdepth hroom
      (fun later hmem => hadmissible later (List.mem_cons_of_mem instruction hmem)) hrest

/-- Inside of a branch that is not taken the machine passes over a script that is in
order by itself, whatever conditionals it contains. -/
theorem passesOver_of_skips {block : Script} (hskips : m.executes = false)
    (hdepth : m.depth ≤ maxStackDepth) (hroom : m.opCount ≤ maxOperations)
    (hblock : block.WellFormed) : m.PassesOver context block.instructions m.conditions := by
  have hnone : m.conditions = [] ++ m.conditions := rfl
  exact passesOver_instructions hskips hnone hdepth hroom hblock.admissible hblock.balanced

end SpendCheck.Machine
