import SpendCheck.Proofs.Machine.Boundary
import SpendCheck.Proofs.Machine.Growth
import SpendCheck.Proofs.Machine.Step

namespace SpendCheck

namespace Stack

variable {count : Nat} {before after stack : Stack} {element : Bytes}

/-- The elements that are too long to be pushed. -/
def oversized (stack : Stack) : Stack :=
  stack.filter fun element => decide (maxElementSize < element.length)

theorem oversized_append (upper lower : Stack) :
    oversized (upper ++ lower) = oversized upper ++ oversized lower :=
  List.filter_append ..

theorem oversized_cons_of_lt (h : maxElementSize < element.length) (stack : Stack) :
    oversized (element :: stack) = element :: oversized stack :=
  List.filter_cons_of_pos (decide_eq_true h)

/-- What is new is not too long, so that what is too long was there before. -/
theorem Adds.oversized_subperm (h : Adds count before after) :
    after.oversized.Subperm before.oversized := by
  obtain ⟨new, -, hsized, hsubperm⟩ := h
  have hnew : oversized new = [] :=
    List.filter_eq_nil_iff.2 fun element helement => by simpa using hsized element helement
  have hfiltered : (oversized after).Subperm (oversized (new ++ before)) := hsubperm.filter _
  rwa [oversized_append, hnew, List.nil_append] at hfiltered

theorem push_result_of_lt (h : maxElementSize < element.length) (stack : Stack) :
    (push element stack).result = .error .pushSize := by
  rw [push_of_lt h]
  rfl

/-- A push before one that fails may only fail in the same way. -/
theorem push_andThen_result {next : Stack → Outcome Stack}
    (h : ∀ stack, (next stack).result = .error .pushSize) (element : Bytes) (stack : Stack) :
    ((push element stack).andThen next).result = .error .pushSize := by
  obtain hlong | hshort := Nat.lt_or_ge maxElementSize element.length
  · exact Outcome.andThen_result_of_error (push_result_of_lt hlong stack)
  · rw [push_of_le hshort]
    exact h (element :: stack)

/-- Of two elements that are pushed, an oversized one stops the operation. -/
theorem push_pair_result {a b : Bytes} (hmem : element ∈ [b, a])
    (hlong : maxElementSize < element.length) (stack : Stack) :
    ((push a stack).andThen (push b)).result = .error .pushSize := by
  obtain rfl | hmem := List.mem_cons.1 hmem
  · exact push_andThen_result (push_result_of_lt hlong) a stack
  · obtain rfl := List.mem_singleton.1 hmem
    exact Outcome.andThen_result_of_error (push_result_of_lt hlong stack)

/-- The element at the depth that the top element tells. -/
def selected? : Stack → Option Bytes
  | index :: below =>
    match Number.decode Number.maxSize index with
    | .error _ => none
    | .ok depth => if depth < 0 then none else below[depth.toNat]?
  | [] => none

/-- A selection that succeeds has an index, and something below it to select from. -/
theorem exists_of_selected? (h : stack.selected? = some element) :
    ∃ index top rest depth, stack = index :: top :: rest ∧
      ∀ next, select next stack = next (top :: rest) depth element := by
  cases stack with
  | nil => cases h
  | cons index below =>
    simp only [selected?] at h
    cases hdecode : Number.decode Number.maxSize index with
    | error e =>
      rw [hdecode] at h
      cases h
    | ok depth =>
      simp only [hdecode] at h
      split at h
      · cases h
      · next hnonneg =>
        obtain ⟨top, rest, rfl, -⟩ := exists_cons_of_le (List.getElem?_eq_some_iff.1 h).1
        refine ⟨index, top, rest, depth.toNat, rfl, fun next => ?_⟩
        simp only [select, hdecode, if_neg hnonneg, h]

end Stack

open Stack

/-- The elements of which an operation puts one more copy on the stack. -/
def StackOperation.copied : StackOperation → Stack → List Bytes
  | .dup, a :: _ => [a]
  | .dup2, b :: a :: _ => [b, a]
  | .dup3, c :: b :: a :: _ => [c, b, a]
  | .ifDup, a :: _ => if Number.truthy a then [a] else []
  | .over, _ :: a :: _ => [a]
  | .over2, _ :: _ :: b :: a :: _ => [b, a]
  | .pick, stack => stack.selected?.toList
  | .tuck, b :: _ :: _ => [b]
  | _, _ => []

/-- A copy of an element that is too long is not made, but for the one that is put below
the second element. -/
theorem StackOperation.apply_result_of_copied {kind : StackOperation} {stack : Stack}
    (hkind : kind ≠ .tuck) (h : ∃ element ∈ kind.copied stack, maxElementSize < element.length) :
    (kind.apply stack).result = .error .pushSize := by
  obtain ⟨element, hmem, hlong⟩ := h
  revert hmem
  fun_cases StackOperation.copied kind stack with
  | case1 a =>
    intro hmem
    obtain rfl := List.mem_singleton.1 hmem
    exact push_result_of_lt hlong _
  | case2 b a => exact fun hmem => push_pair_result hmem hlong _
  | case3 c b a =>
    intro hmem
    rw [apply]
    obtain rfl | hmem := List.mem_cons.1 hmem
    · rw [Outcome.andThen_assoc]
      exact push_andThen_result (push_andThen_result (push_result_of_lt hlong) b) a _
    · exact Outcome.andThen_result_of_error (push_pair_result hmem hlong _)
  | case4 a rest htrue =>
    intro hmem
    obtain rfl := List.mem_singleton.1 hmem
    rw [apply, if_pos htrue]
    exact push_result_of_lt hlong _
  | case6 b a =>
    intro hmem
    obtain rfl := List.mem_singleton.1 hmem
    exact push_result_of_lt hlong _
  | case7 d c b a => exact fun hmem => push_pair_result hmem hlong _
  | case8 =>
    intro hmem
    obtain ⟨index, top, rest, depth, rfl, hselect⟩ := exists_of_selected? (Option.mem_toList.1 hmem)
    rw [apply, hselect]
    exact push_result_of_lt hlong _
  | case9 => exact absurd rfl hkind
  | case5 | case10 => exact fun hmem => absurd hmem List.not_mem_nil

namespace Machine

variable {context : Context} {m m' : Machine} {instruction : Instruction}

/-- The instruction is executed and puts a copy of the top element, which is too long,
below the second one. -/
structure TucksOversized (m : Machine) (instruction : Instruction) : Prop where
  executes : m.executes = true
  isTuck : ∃ opcode, instruction = .op opcode ∧ Operation.ofOpcode opcode = .stack .tuck
  top : m.stack.HasOversizedTop

theorem oversized_subperm_of_apply {kind : Branching} (h : kind.apply m = .done m') :
    m'.elements.oversized.Subperm m.elements.oversized := by
  have hadds := adds_branching m kind
  rw [h] at hadds
  exact hadds.oversized_subperm

/-- Unless an oversized top is tucked, no operation leaves more oversized elements than it
found. -/
theorem oversized_subperm_of_execute {operation : Operation}
    (h : m.execute context operation = .done m')
    (htuck : operation = .stack .tuck → ¬m.stack.HasOversizedTop) :
    m'.elements.oversized.Subperm m.elements.oversized := by
  have hadds := adds_execute context m htuck
  rw [h] at hadds
  exact hadds.oversized_subperm

/-- The copy below the second element is not measured, so an element that is too long is there
twice afterwards. -/
theorem oversized_perm_of_execute_tuck {element : Bytes}
    (h : m.execute context (.stack .tuck) = .done m') (helement : element ∈ m.stack.head?)
    (hlong : maxElementSize < element.length) :
    m'.elements.oversized.Perm (element :: m.elements.oversized) := by
  obtain ⟨below, hstack⟩ := List.head?_eq_some_iff.1 helement
  rw [execute, onStack, hstack] at h
  cases below with
  | nil => cases h
  | cons a rest =>
    cases h
    have hmoved : (element :: a :: element :: (rest ++ m.altStack)).Perm
        (element :: element :: a :: (rest ++ m.altStack)) :=
      (List.Perm.swap element a _).cons element
    rw [elements, elements, hstack, ← oversized_cons_of_lt hlong]
    exact hmoved.filter _

/-- Other instructions leave no more of each element that is too long than there were. -/
theorem Performs.oversized_subperm (h : m.Performs context instruction m')
    (htuck : ¬m.TucksOversized instruction) :
    m'.elements.oversized.Subperm m.elements.oversized := by
  cases h with
  | push hsize hexecutes => exact (adds_cons hsize m.elements).oversized_subperm
  | skipPush hsize hskips => exact List.Subperm.refl _
  | branch hroom hkind happly =>
    have hleft := oversized_subperm_of_apply happly
    exact hleft
  | execute hroom hother hexecutes hexecute =>
    have hleft := oversized_subperm_of_execute hexecute fun hoperation htop =>
      htuck ⟨hexecutes, ⟨_, rfl, hoperation⟩, htop⟩
    exact hleft
  | skip hroom hother henabled hskips => exact List.Subperm.refl _

/-- The copy is one more. -/
theorem Performs.oversized_perm (h : m.Performs context instruction m')
    (htuck : m.TucksOversized instruction) :
    ∃ element ∈ m.stack.head?, m'.elements.oversized.Perm (element :: m.elements.oversized) := by
  obtain ⟨hexecutes, ⟨opcode, rfl, hoperation⟩, element, helement, hlong⟩ := htuck
  refine ⟨element, helement, ?_⟩
  cases h with
  | branch hroom hkind happly =>
    rw [hoperation] at hkind
    cases hkind
  | execute hroom hother _ hexecute =>
    rw [hoperation] at hexecute
    have hleft := oversized_perm_of_execute_tuck hexecute helement hlong
    exact hleft
  | skip hroom hother henabled hskips =>
    rw [hexecutes] at hskips
    cases hskips

theorem oversized_subperm_of_step (h : m.step context instruction = .done m')
    (htuck : ¬m.TucksOversized instruction) :
    m'.elements.oversized.Subperm m.elements.oversized := by
  obtain ⟨hperforms, -⟩ := performs_of_step h
  exact hperforms.oversized_subperm fun hmoved => htuck ⟨hmoved.executes, hmoved.isTuck, hmoved.top⟩

theorem oversized_perm_of_step (h : m.step context instruction = .done m')
    (htuck : m.TucksOversized instruction) :
    ∃ element ∈ m.stack.head?, m'.elements.oversized.Perm (element :: m.elements.oversized) := by
  obtain ⟨hperforms, -⟩ := performs_of_step h
  exact hperforms.oversized_perm ⟨htuck.executes, htuck.isTuck, htuck.top⟩

/-- Several steps, none of which copies an element that is too long. -/
theorem oversized_subperm_of_steps {instructions : List Instruction}
    (h : m.steps context instructions = .done m')
    (htuck : ∀ before instruction after between, instructions = before ++ instruction :: after →
      m.steps context before = .done between → ¬between.TucksOversized instruction) :
    m'.elements.oversized.Subperm m.elements.oversized := by
  induction instructions generalizing m with
  | nil =>
    cases h
    exact List.Subperm.refl _
  | cons instruction rest ih =>
    obtain ⟨stepped, hfirst, hrest⟩ := Outcome.andThen_eq_done_iff.1 h
    have hstep := oversized_subperm_of_step hfirst (htuck [] instruction rest m rfl rfl)
    refine (ih hrest ?_).trans hstep
    intro before later after between hsplit hbefore
    refine htuck (instruction :: before) later after between (by rw [hsplit]; rfl) ?_
    rw [steps, hfirst]
    exact hbefore

/-- Where it is executed, an operation that would copy an element that is too long
fails. -/
theorem step_result_of_copied {opcode : Opcode} {kind : StackOperation} (hexecutes : m.executes = true)
    (hcount : m.opCount < maxOperations) (hopcode : Operation.ofOpcode opcode = .stack kind)
    (hkind : kind ≠ .tuck) (h : ∃ element ∈ kind.copied m.stack, maxElementSize < element.length) :
    (m.step context (.op opcode)).result = .error .pushSize := by
  have hcounted : opcode.isCounted = true :=
    Operation.isCounted_of_ofOpcode (by simp [hopcode]) (by simp [hopcode])
  rw [step_op_of_executes hexecutes hcounted hcount, hopcode, execute]
  refine Outcome.andThen_result_of_error ?_
  rw [onStack_result]
  exact StackOperation.apply_result_of_copied hkind h

end Machine

namespace Evaluator

/-- Elements that are too long, which only the stack at the start can bring in, are not
multiplied, but for one operation. An evaluation that succeeds leaves no more of each of
them than there were, unless it executes the copy below the second element on one of
them. Each step of it keeps them down, on both stacks together, or else makes this copy,
which is one more. All other operations that would copy one of them fail. -/
theorem tuck_alone_multiplies_oversized (evaluator : Evaluator) (stack : Stack) (script : Script) :
    ((evaluator.run stack script).result = .ok () →
      (∀ before instruction after m, evaluator.Passes stack script before (instruction :: after) m →
        ¬m.TucksOversized instruction) →
      (evaluator.run stack script).stack.oversized.Subperm stack.oversized) ∧
    (∀ before instruction after m m',
      evaluator.Passes stack script before (instruction :: after) m →
      m.step (evaluator.context script) instruction = .done m' →
      (¬m.TucksOversized instruction → m'.elements.oversized.Subperm m.elements.oversized) ∧
        (m.TucksOversized instruction →
          ∃ element ∈ m.stack.head?, m'.elements.oversized.Perm (element :: m.elements.oversized))) ∧
    (∀ before opcode after m kind, evaluator.Passes stack script before (.op opcode :: after) m →
      m.executes = true → m.opCount < maxOperations → Operation.ofOpcode opcode = .stack kind →
      kind ≠ .tuck → (∃ element ∈ kind.copied m.stack, maxElementSize < element.length) →
      (evaluator.run stack script).result = .error .pushSize) := by
  refine ⟨?_, ?_, ?_⟩
  · intro hok htuck
    obtain ⟨m, hpasses, hstate, -⟩ := passes_end_of_run_eq_ok hok
    have hsteps := Machine.oversized_subperm_of_steps hpasses.steps_eq
      fun before instruction after between hsplit hbefore =>
        htuck before instruction after between ⟨hpasses.length_le, hsplit, hbefore⟩
    have hstart : (evaluator.reset.start stack).elements = stack := List.append_nil stack
    have hupper : m.stack.Sublist m.elements := List.sublist_append_left ..
    rw [hstart] at hsteps
    rw [hstate]
    exact (hupper.filter _).subperm.trans hsteps
  · intro before instruction after m m' _ hstep
    exact ⟨Machine.oversized_subperm_of_step hstep, Machine.oversized_perm_of_step hstep⟩
  · intro before opcode after m kind hpasses hexecutes hcount hopcode hkind hcopied
    have hfails : (m.step (evaluator.context script) (.op opcode)).result = .error .pushSize :=
      Machine.step_result_of_copied hexecutes hcount hopcode hkind hcopied
    cases hstep : m.step (evaluator.context script) (.op opcode) with
    | done m' =>
      rw [hstep] at hfails
      cases hfails
    | failed e m' =>
      rw [hstep] at hfails
      cases hfails
      exact (hpasses.run_of_step_eq_failed hstep).1

/-- The copy below the second element is not measured: there are two elements that are
too long, where there was one. -/
theorem tuck_doubles_oversized :
    (Evaluator.run ⟨.none, .refuseAll, [], 0⟩ [List.replicate 521 0xaa, [7]] [0x7d]).result = .ok () ∧
    (Stack.oversized [List.replicate 521 0xaa, [7]]).length = 1 ∧
    (Evaluator.run ⟨.none, .refuseAll, [], 0⟩
      [List.replicate 521 0xaa, [7]] [0x7d]).stack.oversized.length = 2 := by
  decide +kernel

/-- One element that is too long: it is moved, copied below the second one, and refused
where its copy is pushed. -/
theorem oversized_swapped_tucked_and_refused :
    (Evaluator.run ⟨.none, .refuseAll, [], 0⟩
      [List.replicate 521 0xaa, [7]] [0x7c]).stack.oversized.Subperm
        (Stack.oversized [List.replicate 521 0xaa, [7]]) ∧
    (∃ element ∈ some (List.replicate 521 0xaa),
      (Stack.oversized [List.replicate 521 0xaa, [7], List.replicate 521 0xaa]).Perm
        (element :: Stack.oversized [List.replicate 521 0xaa, [7]])) ∧
    (Evaluator.run ⟨.none, .refuseAll, [], 0⟩
      [List.replicate 521 0xaa, [7]] [0x76]).result = .error .pushSize := by
  obtain ⟨hkeeps, -, -⟩ := tuck_alone_multiplies_oversized ⟨.none, .refuseAll, [], 0⟩
    [List.replicate 521 0xaa, [7]] [0x7c]
  obtain ⟨-, hsteps, -⟩ := tuck_alone_multiplies_oversized ⟨.none, .refuseAll, [], 0⟩
    [List.replicate 521 0xaa, [7]] [0x7d]
  obtain ⟨-, -, hfails⟩ := tuck_alone_multiplies_oversized ⟨.none, .refuseAll, [], 0⟩
    [List.replicate 521 0xaa, [7]] [0x76]
  refine ⟨?_, ?_, ?_⟩
  · refine hkeeps (by decide +kernel) ?_
    intro before instruction after m hpasses htuck
    obtain ⟨opcode, rfl, hopcode⟩ := htuck.isTuck
    have hsplit : [.op 0x7c] = before ++ .op opcode :: after :=
      (show Script.instructions [0x7c] = [.op 0x7c] by decide +kernel).symm.trans hpasses.instructions_eq
    have hmem : Instruction.op opcode ∈ [Instruction.op 0x7c] := by
      rw [hsplit]
      exact List.mem_append_right before (.head _)
    cases List.mem_singleton.1 hmem
    cases hopcode
  · obtain ⟨-, htucks⟩ := hsteps [] (.op 0x7d) [] _ _ ⟨by decide, by decide +kernel, rfl⟩ rfl
    exact htucks ⟨rfl, ⟨0x7d, rfl, rfl⟩, List.replicate 521 0xaa, rfl, by decide +kernel⟩
  · exact hfails [] 0x76 [] _ .dup ⟨by decide, by decide +kernel, rfl⟩ rfl (by decide) rfl
      (by decide) ⟨List.replicate 521 0xaa, .head _, by decide +kernel⟩

end Evaluator

end SpendCheck
