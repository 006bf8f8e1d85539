import SpendCheck.Proofs.Machine.Boundary
import SpendCheck.Proofs.Machine.Step
import SpendCheck.Proofs.Script.Push

namespace SpendCheck

theorem Number.encode_toNat_of_small :
    ∀ b : UInt8, 1 ≤ b ∧ b ≤ 16 → Number.encode b.toNat = [b] := by
  decide +kernel

/-- An opcode that has a value pushes the number that the value encodes, and does not
count as an operation. -/
theorem Operation.exists_number_of_value? {opcode : Opcode} {value : Bytes}
    (h : (Instruction.op opcode).value? = some value) :
    ∃ number, Operation.ofOpcode opcode = .number number ∧ Number.encode number = value ∧
      opcode.isCounted = false := by
  obtain ⟨rfl, rfl⟩ | ⟨hsmall, rfl⟩ := Instruction.value?_op_eq_some_iff.1 h
  · exact ⟨-1, rfl, by decide +kernel, rfl⟩
  · have hbyte := Instruction.sub_reserved_of_small opcode hsmall
    have hother : opcode ≠ Opcode.negativeOne := by
      rintro rfl
      exact absurd hsmall (by decide)
    refine ⟨(opcode - Opcode.reserved).toNat, ?_, Number.encode_toNat_of_small _ hbyte, ?_⟩
    · unfold Operation.ofOpcode
      rw [if_neg hother, if_pos hsmall]
    · exact decide_eq_false (UInt8.not_lt.2 hsmall.2)

namespace Stack

/-- Places a value on a stack where nothing is on the other one: the value must not be too
long, and then there must not be too many elements. -/
def place (value : Bytes) (stack : Stack) : Outcome Stack :=
  (push value stack).andThen fun stack =>
    if maxStackDepth < stack.length then .failed .stackSize stack else .done stack

/-- Places values on a stack, one after the other. -/
def placeAll : List Bytes → Stack → Outcome Stack
  | [], stack => .done stack
  | value :: rest, stack => (place value stack).andThen (placeAll rest)

/-- All values are short, and if there are any, the stack has room for them. -/
structure Accepts (stack : Stack) (values : List Bytes) : Prop where
  short : ∀ value ∈ values, value.length ≤ maxElementSize
  room : values = [] ∨ stack.length + values.length ≤ maxStackDepth

/-- A value is the first one that is too long or for which there is no room; the values
`before` come before it. -/
structure StopsAt (stack : Stack) (values before : List Bytes) (value : Bytes) : Prop where
  split : before ++ [value] <+: values
  accepts : stack.Accepts before
  refuses : maxElementSize < value.length ∨ maxStackDepth < stack.length + (before.length + 1)

variable {stack : Stack} {values before : List Bytes} {value : Bytes}

theorem place_of_long (h : maxElementSize < value.length) :
    place value stack = .failed .pushSize stack := by
  rw [place, push_of_lt h, Outcome.failed_andThen]

theorem place_of_short (h : value.length ≤ maxElementSize) :
    place value stack =
      if maxStackDepth < stack.length + 1 then .failed .stackSize (value :: stack)
      else .done (value :: stack) := by
  rw [place, push_of_le h, Outcome.done_andThen, List.length_cons]

theorem placeAll_append (first second : List Bytes) (stack : Stack) :
    placeAll (first ++ second) stack = (placeAll first stack).andThen (placeAll second) := by
  induction first generalizing stack with
  | nil => rfl
  | cons value rest ih =>
    rw [List.cons_append, placeAll, placeAll, Outcome.andThen_assoc]
    congr 1
    funext placed
    exact ih placed

theorem accepts_nil (stack : Stack) : stack.Accepts [] :=
  ⟨fun _ hmem => absurd hmem List.not_mem_nil, .inl rfl⟩

/-- Values are accepted one after the other, each on top of those before it. -/
theorem accepts_cons_iff :
    stack.Accepts (value :: values) ↔
      (value.length ≤ maxElementSize ∧ stack.length + 1 ≤ maxStackDepth) ∧
        Accepts (value :: stack) values := by
  constructor
  · intro h
    have hroom := h.room.resolve_left (List.cons_ne_nil _ _)
    rw [List.length_cons] at hroom
    refine ⟨⟨h.short value List.mem_cons_self, by omega⟩,
      fun other hmem => h.short other (List.mem_cons_of_mem value hmem), .inr ?_⟩
    rw [List.length_cons]
    omega
  · rintro ⟨⟨hshort, hroom⟩, hrest⟩
    refine ⟨List.forall_mem_cons.2 ⟨hshort, hrest.short⟩, .inr ?_⟩
    obtain rfl | hrestRoom := hrest.room
    · exact hroom
    · rw [List.length_cons] at hrestRoom ⊢
      omega

/-- Values for which there is room all arrive, the last one on top. -/
theorem placeAll_of_accepts (h : stack.Accepts values) :
    placeAll values stack = .done (values.reverse ++ stack) := by
  induction values generalizing stack with
  | nil => rfl
  | cons value rest ih =>
    obtain ⟨⟨hshort, hroom⟩, hrest⟩ := accepts_cons_iff.1 h
    rw [placeAll, place_of_short hshort, if_neg (Nat.not_lt.2 hroom), Outcome.done_andThen, ih hrest,
      List.reverse_cons, List.append_assoc, List.singleton_append]

/-- Placing values stops at the first one that is not accepted. One that is too long is not
placed, and one for which there is no room is. -/
theorem StopsAt.placeAll_eq (h : stack.StopsAt values before value) :
    placeAll values stack =
      if maxElementSize < value.length then .failed .pushSize (before.reverse ++ stack)
      else .failed .stackSize (value :: (before.reverse ++ stack)) := by
  obtain ⟨after, rfl⟩ := h.split
  rw [placeAll_append, placeAll_append, placeAll_of_accepts h.accepts, Outcome.done_andThen, placeAll]
  split
  · next hlong => rw [place_of_long hlong, Outcome.failed_andThen, Outcome.failed_andThen]
  · next hshort =>
    have hfull : maxStackDepth < (before.reverse ++ stack).length + 1 := by
      have hrefuses := h.refuses.resolve_left hshort
      rw [List.length_append, List.length_reverse]
      omega
    rw [place_of_short (Nat.not_lt.1 hshort), if_pos hfull, Outcome.failed_andThen,
      Outcome.failed_andThen]

/-- Either all values can be placed, or one of them is the first that cannot. -/
theorem accepts_or_stopsAt (stack : Stack) (values : List Bytes) :
    stack.Accepts values ∨ ∃ before value, stack.StopsAt values before value := by
  -- The stack varies: what comes behind a value is placed on top of it.
  induction values generalizing stack with
  | nil => exact .inl (accepts_nil stack)
  | cons value rest ih =>
    by_cases hvalue : value.length ≤ maxElementSize ∧ stack.length + 1 ≤ maxStackDepth
    · obtain hrest | ⟨before, later, hlater⟩ := ih (value :: stack)
      · exact .inl (accepts_cons_iff.2 ⟨hvalue, hrest⟩)
      · refine .inr ⟨value :: before, later, ?_, accepts_cons_iff.2 ⟨hvalue, hlater.accepts⟩, ?_⟩
        · exact List.cons_prefix_cons.2 ⟨rfl, hlater.split⟩
        · have hrefuses := hlater.refuses
          rw [List.length_cons] at hrefuses ⊢
          omega
    · refine .inr ⟨[], value, ⟨rest, rfl⟩, accepts_nil stack, ?_⟩
      rw [List.length_nil]
      omega

end Stack

namespace Script

/-- The values that the instructions of a script push. -/
def values (script : Script) : List Bytes :=
  script.instructions.filterMap Instruction.value?

/-- In a script that only pushes, and does not use the reserved opcode, every instruction
has a value. -/
theorem map_value?_of_isPushOnly {script : Script} (h : script.isPushOnly = true)
    (hreserved : .op Opcode.reserved ∉ script.instructions) :
    script.instructions.map Instruction.value? = script.values.map some := by
  have hall : ∀ found ∈ script.instructions.map Instruction.value?, found.isSome = true := by
    intro found hmem
    obtain ⟨instruction, hinstruction, rfl⟩ := List.mem_map.1 hmem
    refine Instruction.isSome_value? (isValid_of_mem_instructions hinstruction)
      (opcode_le_of_isPushOnly h hinstruction) ?_
    rintro rfl
    exact hreserved hinstruction
  rw [values, List.map_filterMap_some_eq_filter_map_isSome, List.filter_eq_self.2 hall]

end Script

namespace Machine

variable {context : Context} {m : Machine} {instruction : Instruction} {value : Bytes}

theorem onStack_push_andThen_checkDepth (h : m.altStack = []) (value : Bytes) :
    (m.onStack (Stack.push value)).andThen checkDepth = m.onStack (Stack.place value) := by
  unfold onStack Stack.place
  cases Stack.push value m.stack with
  | failed e stack => rfl
  | done stack =>
    by_cases hfull : maxStackDepth < stack.length <;>
      simp only [Outcome.map, Outcome.done_andThen, checkDepth, depth, h, List.length_nil, Nat.add_zero,
        hfull, if_true, if_false]

/-- An instruction with a value places it, whether the value is a payload or a number. -/
theorem step_of_value? (h : instruction.value? = some value) (hexecutes : m.executes = true)
    (hempty : m.altStack = []) :
    m.step context instruction =
      onStack { m with position := m.position + instruction.size } (Stack.place value) := by
  have hmoved : Machine.executes { m with position := m.position + instruction.size } = true := hexecutes
  have hpushed : perform context { m with position := m.position + instruction.size } instruction =
      onStack { m with position := m.position + instruction.size } (Stack.push value) := by
    cases instruction with
    | push opcode payload =>
      obtain rfl := Option.some.inj h
      -- The size of a payload is tested twice, with the same outcome.
      simp only [perform, pushPayload, if_pos hmoved]
      split
      · next hlong => exact (onStack_of_failed (Stack.push_of_lt hlong _)).symm
      · rfl
    | op opcode =>
      obtain ⟨number, hoperation, rfl, hcounted⟩ := Operation.exists_number_of_value? h
      simp only [perform, hcounted, hoperation, Outcome.done_andThen, Bool.false_eq_true, if_false,
        operate_of_executes hmoved, execute]
  rw [step, hpushed]
  exact onStack_push_andThen_checkDepth (m := { m with position := m.position + instruction.size }) hempty
    value

/-- Instructions that push values place them one after the other, however each of them is
encoded. -/
theorem steps_of_values {instructions : List Instruction} {values : List Bytes}
    (h : instructions.map Instruction.value? = values.map some) (hexecutes : m.executes = true)
    (hempty : m.altStack = []) :
    ∃ position, m.steps context instructions =
      onStack { m with position := position } (Stack.placeAll values) := by
  induction instructions generalizing m values with
  | nil =>
    obtain rfl := List.map_eq_nil_iff.1 h.symm
    exact ⟨m.position, rfl⟩
  | cons instruction rest ih =>
    obtain ⟨value, others, rfl, hvalue, hothers⟩ := List.map_eq_cons_iff.1 h.symm
    rw [steps, step_of_value? hvalue.symm hexecutes hempty]
    simp only [onStack, Stack.placeAll]
    cases Stack.place value m.stack with
    | failed e stack => exact ⟨m.position + instruction.size, rfl⟩
    | done stack =>
      obtain ⟨position, hrest⟩ := ih (m := { m with
        stack := stack, position := m.position + instruction.size }) hothers.symm hexecutes hempty
      exact ⟨position, hrest⟩

end Machine

namespace Evaluator

variable {script : Script}

/-- A script that only pushes leaves what placing its values leaves, and asks nothing. -/
theorem run_of_isPushOnly (hsize : script.length ≤ maxScriptSize) (hpushes : script.isPushOnly = true)
    (hreserved : .op Opcode.reserved ∉ script.instructions) (evaluator : Evaluator) (stack : Stack) :
    evaluator.run stack script =
      ⟨(Stack.placeAll script.values stack).result, (Stack.placeAll script.values stack).state, [],
        evaluator.reset⟩ := by
  have hwhole := Script.tail_of_isPushOnly hpushes
  obtain ⟨position, hsteps⟩ : ∃ position,
      (evaluator.reset.start stack).steps (evaluator.context script) script.instructions =
        Machine.onStack { evaluator.reset.start stack with position := position }
          (Stack.placeAll script.values) :=
    Machine.steps_of_values (Script.map_value?_of_isPushOnly hpushes hreserved) rfl rfl
  have hrun : (evaluator.reset.start stack).run (evaluator.context script) =
      (Stack.placeAll script.values stack).map fun left =>
        { evaluator.reset.start left with position := position } := by
    have hscript : (evaluator.context script).script = script := rfl
    have hstack : (evaluator.reset.start stack).stack = stack := rfl
    rw [Machine.run, hscript, hsteps, hwhole, Machine.onStack, hstack]
    cases Stack.placeAll script.values stack <;> rfl
  rw [run_of_length_le evaluator stack hsize hrun]
  cases Stack.placeAll script.values stack <;> rfl

/-- A script of pushes evaluates to its values, however each of them is written. Nothing is
asked of the checker. If all values are short and the stack has room for them, they lie
on the stack in the end, the last one on top; if not, the evaluation ends at the first
value that is too long, which is not placed, or for which there is no room, which
is; a value that is both is too long. Another such script with the same values
behaves in the same way. -/
theorem pushOnly_run_places_values (hsize : script.length ≤ maxScriptSize)
    (hpushes : script.isPushOnly = true) (hreserved : .op Opcode.reserved ∉ script.instructions)
    (evaluator : Evaluator) (stack : Stack) :
    script.instructions.map Instruction.value? = script.values.map some ∧
      (evaluator.run stack script).calls = [] ∧
      (stack.Accepts script.values →
        (evaluator.run stack script).result = .ok () ∧
          (evaluator.run stack script).stack = script.values.reverse ++ stack) ∧
      (∀ before value, stack.StopsAt script.values before value →
        if maxElementSize < value.length then
          (evaluator.run stack script).result = .error .pushSize ∧
            (evaluator.run stack script).stack = before.reverse ++ stack
        else
          (evaluator.run stack script).result = .error .stackSize ∧
            (evaluator.run stack script).stack = value :: (before.reverse ++ stack)) ∧
      (stack.Accepts script.values ∨ ∃ before value, stack.StopsAt script.values before value) ∧
      ∀ other : Script, other.length ≤ maxScriptSize → other.isPushOnly = true →
        .op Opcode.reserved ∉ other.instructions → other.values = script.values →
        evaluator.run stack other = evaluator.run stack script := by
  have hrun := run_of_isPushOnly hsize hpushes hreserved evaluator stack
  refine ⟨Script.map_value?_of_isPushOnly hpushes hreserved, by rw [hrun], ?_, ?_,
    stack.accepts_or_stopsAt script.values, ?_⟩
  · intro haccepts
    rw [hrun, Stack.placeAll_of_accepts haccepts]
    exact ⟨rfl, rfl⟩
  · intro before value hstops
    rw [hrun, hstops.placeAll_eq]
    split <;> exact ⟨rfl, rfl⟩
  · intro other hotherSize hotherPushes hotherReserved hvalues
    rw [run_of_isPushOnly hotherSize hotherPushes hotherReserved, hvalues, hrun]

/-- The values 5, -1 and 16, pushed behind length bytes of every width on a stack of 999
elements: the second one ends the evaluation, as it does where the values are
pushed by opcodes of their own. -/
theorem second_push_on_almost_full_stack :
    (Evaluator.run ⟨.standard, .refuseAll, [], 0⟩ (List.replicate 999 [])
      [0x4c, 0x01, 0x05, 0x4d, 0x01, 0x00, 0x81, 0x4e, 0x01, 0x00, 0x00, 0x00, 0x10]).result =
        .error .stackSize ∧
    (Evaluator.run ⟨.standard, .refuseAll, [], 0⟩ (List.replicate 999 [])
      [0x4c, 0x01, 0x05, 0x4d, 0x01, 0x00, 0x81, 0x4e, 0x01, 0x00, 0x00, 0x00, 0x10]).stack =
        [0x81] :: [0x05] :: List.replicate 999 [] ∧
    (Evaluator.run ⟨.standard, .refuseAll, [], 0⟩ (List.replicate 999 []) [0x55, 0x4f, 0x60]).result =
      .error .stackSize := by
  have hvalues : Script.values
      [0x4c, 0x01, 0x05, 0x4d, 0x01, 0x00, 0x81, 0x4e, 0x01, 0x00, 0x00, 0x00, 0x10] =
        [[0x05], [0x81], [0x10]] := by decide +kernel
  obtain ⟨-, -, -, hstops, -, hsame⟩ := @pushOnly_run_places_values
    [0x4c, 0x01, 0x05, 0x4d, 0x01, 0x00, 0x81, 0x4e, 0x01, 0x00, 0x00, 0x00, 0x10] (by decide)
    (by decide +kernel) (by decide +kernel) ⟨.standard, .refuseAll, [], 0⟩ (List.replicate 999 [])
  have hroom : ∀ count, (List.replicate 999 ([] : Bytes)).length + count = 999 + count := fun count => by
    rw [List.length_replicate]
  have hstop : Stack.StopsAt (List.replicate 999 []) [[0x05], [0x81], [0x10]] [[0x05]] [0x81] := by
    refine ⟨⟨[[0x10]], rfl⟩, ⟨by decide, .inr ?_⟩, .inr ?_⟩
    · rw [hroom]
      decide
    · rw [hroom]
      decide
  have hsecond := hstops [[0x05]] [0x81] (hvalues ▸ hstop)
  have hother := hsame [0x55, 0x4f, 0x60] (by decide) (by decide +kernel) (by decide +kernel)
    (by decide +kernel)
  exact ⟨hsecond.1, hsecond.2, by rw [hother, hsecond.1]⟩

end Evaluator

end SpendCheck
