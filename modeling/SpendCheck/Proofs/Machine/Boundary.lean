import SpendCheck.Machine.Evaluator
import SpendCheck.Proofs.Machine.Frame

namespace SpendCheck

namespace Machine

variable {context : Context} {m m' : Machine}

/-- Executing a list of instructions in two parts is executing it at once. -/
theorem steps_append (first second : List Instruction) :
    m.steps context (first ++ second) = (m.steps context first).andThen (steps context second) := by
  induction first generalizing m with
  | nil => rfl
  | cons instruction rest ih =>
    simp only [List.cons_append, steps, Outcome.andThen_assoc]
    congr 1
    funext stepped
    exact ih

theorem steps_singleton (instruction : Instruction) :
    m.steps context [instruction] = m.step context instruction := by
  simp only [steps]
  cases m.step context instruction <;> rfl

/-- What every step keeps, several steps keep. -/
theorem steps_induction {P : Machine → Prop}
    (hstep : ∀ m m' instruction, P m → m.step context instruction = .done m' → P m')
    {instructions : List Instruction} (h : P m) (hdone : m.steps context instructions = .done m') :
    P m' := by
  induction instructions generalizing m with
  | nil =>
    cases hdone
    exact h
  | cons instruction rest ih =>
    obtain ⟨stepped, hfirst, hrest⟩ := Outcome.andThen_eq_done_iff.1 hdone
    exact ih (hstep m stepped instruction h hfirst) hrest

/-- What every step keeps, also one that fails, holds of whatever several steps leave. -/
theorem steps_state_induction {P : Machine → Prop}
    (hstep : ∀ m instruction, P m → P (m.step context instruction).state) (h : P m)
    (instructions : List Instruction) : P (m.steps context instructions).state := by
  induction instructions generalizing m with
  | nil => exact h
  | cons instruction rest ih =>
    have hleft := hstep m instruction h
    rw [steps]
    cases hfirst : m.step context instruction with
    | failed e stopped =>
      rw [hfirst] at hleft
      exact hleft
    | done stepped =>
      rw [hfirst] at hleft
      exact ih hleft

/-- What holds of the machine that several steps leave held of the first one, or
one of the steps brought it about. -/
theorem exists_step_of_steps_state {P : Machine → Prop} {instructions : List Instruction}
    (h : P (m.steps context instructions).state) (hstart : ¬P m) :
    ∃ before instruction after between, instructions = before ++ instruction :: after ∧
      m.steps context before = .done between ∧ ¬P between ∧
      P (between.step context instruction).state := by
  induction instructions generalizing m with
  | nil => exact absurd h hstart
  | cons instruction rest ih =>
    by_cases hfirst : P (m.step context instruction).state
    · exact ⟨[], instruction, rest, m, rfl, rfl, hstart, hfirst⟩
    · rw [steps] at h
      cases hstep : m.step context instruction with
      | failed e stopped =>
        rw [hstep] at h hfirst
        exact absurd h hfirst
      | done stepped =>
        rw [hstep] at h hfirst
        obtain ⟨before, later, after, between, rfl, hbefore, hbetween, hlater⟩ := ih h hfirst
        refine ⟨instruction :: before, later, after, between, rfl, ?_, hbetween, hlater⟩
        rw [steps, hstep]
        exact hbefore

/-- Several steps count no operation back, whether they succeed or fail. -/
theorem le_steps_opCount (context : Context) (m : Machine) (instructions : List Instruction) :
    m.opCount ≤ (m.steps context instructions).state.opCount :=
  steps_state_induction (P := fun left => m.opCount ≤ left.opCount)
    (fun earlier instruction hle => Nat.le_trans hle (le_step_opCount context earlier instruction))
    (Nat.le_refl _) instructions

/-- Steps move the position by the bytes of their instructions. -/
theorem steps_position {instructions : List Instruction}
    (h : m.steps context instructions = .done m') :
    m'.position = m.position + (instructions.flatMap Instruction.bytes).length := by
  induction instructions generalizing m with
  | nil =>
    cases h
    simp
  | cons instruction rest ih =>
    obtain ⟨stepped, hfirst, hrest⟩ := Outcome.andThen_eq_done_iff.1 h
    have hmoved := step_position context m instruction
    rw [hfirst, Outcome.done_state] at hmoved
    rw [ih hrest, hmoved]
    simp only [List.flatMap_cons, List.length_append, Instruction.length_bytes, Nat.add_assoc]

@[simp] theorem finish_state (tail : Bytes) : (m.finish tail).state = m := by
  unfold finish
  split
  · rfl
  · split <;> rfl

/-- A run ends well exactly where nothing is left of the script and every conditional is closed. -/
theorem finish_eq_done_iff {tail : Bytes} :
    m.finish tail = .done m' ↔ tail = [] ∧ m.conditions = [] ∧ m' = m := by
  unfold finish
  cases tail with
  | cons b rest => simp
  | nil => cases hconditions : m.conditions <;> simp [eq_comm]

theorem run_state : (m.run context).state = (m.steps context context.script.instructions).state := by
  unfold run
  cases m.steps context context.script.instructions with
  | done stepped => exact finish_state _
  | failed e stopped => rfl

end Machine

namespace Evaluator

variable {evaluator : Evaluator} {stack : Stack} {script : Script} {m : Machine}

/-- What stays the same while the evaluator evaluates a script. -/
def context (evaluator : Evaluator) (script : Script) : Context :=
  ⟨evaluator.flags, evaluator.checker, script⟩

/-- Evaluating a script on a stack passes the place between the instructions
`before` and `after` of the script, and the machine is `m` there. -/
structure Passes (evaluator : Evaluator) (stack : Stack) (script : Script)
    (before after : List Instruction) (m : Machine) : Prop where
  length_le : script.length ≤ maxScriptSize
  instructions_eq : script.instructions = before ++ after
  steps_eq : (evaluator.reset.start stack).steps (evaluator.context script) before = .done m

variable {before after : List Instruction}

/-- What the first machine has and every step keeps holds at every place. -/
theorem Passes.induction {P : Machine → Prop} (hstart : P (evaluator.reset.start stack))
    (hstep : ∀ m m' instruction, P m → m.step (evaluator.context script) instruction = .done m' →
      P m')
    (h : evaluator.Passes stack script before after m) : P m :=
  Machine.steps_induction hstep hstart h.steps_eq

theorem Passes.position_eq (h : evaluator.Passes stack script before after m) :
    m.position = (before.flatMap Instruction.bytes).length := by
  rw [Machine.steps_position h.steps_eq, start, Nat.zero_add]

theorem run_of_length_gt (h : maxScriptSize < script.length) :
    evaluator.run stack script = evaluator.leave (.error .scriptSize) stack :=
  if_pos h

/-- What an evaluation leaves, if the script is not too long, is what its machine leaves. -/
theorem run_of_length_le (evaluator : Evaluator) (stack : Stack) (h : script.length ≤ maxScriptSize)
    {outcome : Outcome Machine}
    (hrun : (evaluator.reset.start stack).run (evaluator.context script) = outcome) :
    evaluator.run stack script =
      { result := outcome.result
        stack := outcome.state.stack
        calls := outcome.state.calls
        evaluator :=
          { evaluator with
            conditions := outcome.state.conditions
            opCount := outcome.state.opCount } } := by
  subst hrun
  exact if_neg (Nat.not_lt.2 h)

/-- What holds of the stack and the questions that an evaluation leaves held at its
start, or a step from a place that it passes brought it about. -/
theorem exists_passes_of_run {P : Stack → List Call → Prop}
    (h : P (evaluator.run stack script).stack (evaluator.run stack script).calls)
    (hstart : ¬P stack []) :
    ∃ before instruction after m, evaluator.Passes stack script before (instruction :: after) m ∧
      ¬P m.stack m.calls ∧
      P (m.step (evaluator.context script) instruction).state.stack
        (m.step (evaluator.context script) instruction).state.calls := by
  by_cases hsize : maxScriptSize < script.length
  · rw [run_of_length_gt hsize] at h
    exact absurd h hstart
  have hle := Nat.not_lt.1 hsize
  rw [run_of_length_le evaluator stack hle rfl, Machine.run_state] at h
  obtain ⟨before, instruction, after, m, hsplit, hbefore, hm, hstep⟩ :=
    Machine.exists_step_of_steps_state (P := fun m => P m.stack m.calls) h hstart
  exact ⟨before, instruction, after, m, ⟨hle, hsplit, hbefore⟩, hm, hstep⟩

/-- A step that fails ends the evaluation, which leaves what the step left. -/
theorem Passes.run_of_step_eq_failed {instruction : Instruction} {e : ScriptError} {m' : Machine}
    (h : evaluator.Passes stack script before (instruction :: after) m)
    (hstep : m.step (evaluator.context script) instruction = .failed e m') :
    (evaluator.run stack script).result = .error e ∧
      (evaluator.run stack script).calls = m'.calls ∧
      (evaluator.run stack script).stack = m'.stack := by
  have hscript : (evaluator.context script).script = script := rfl
  have hrun : (evaluator.reset.start stack).run (evaluator.context script) = .failed e m' := by
    rw [Machine.run, hscript, h.instructions_eq, Machine.steps_append, h.steps_eq,
      Outcome.done_andThen, Machine.steps, hstep]
    rfl
  rw [run_of_length_le evaluator stack h.length_le hrun]
  exact ⟨rfl, rfl, rfl⟩

/-- An evaluation that succeeds passes the end of the script, where nothing is left
of it and no conditional is open, and leaves what the machine is there. -/
theorem run_eq_of_result_eq_ok (h : (evaluator.run stack script).result = .ok ()) :
    ∃ m, evaluator.Passes stack script script.instructions [] m ∧ script.tail = [] ∧
      m.conditions = [] ∧
      evaluator.run stack script =
        ⟨.ok (), m.stack, m.calls, { evaluator with conditions := [], opCount := m.opCount }⟩ := by
  by_cases hsize : maxScriptSize < script.length
  · simp [run_of_length_gt hsize, leave] at h
  have hle := Nat.not_lt.1 hsize
  have hleaves := run_of_length_le evaluator stack hle rfl
  rw [hleaves] at h
  have hdone := Outcome.result_eq_ok_iff.1 h
  obtain ⟨m, hsteps, hfinish⟩ := Outcome.andThen_eq_done_iff.1 hdone
  obtain ⟨hwhole, hclosed, hsame⟩ := Machine.finish_eq_done_iff.1 hfinish
  refine ⟨m, ⟨hle, (List.append_nil _).symm, hsteps⟩, hwhole, hclosed, ?_⟩
  rw [hleaves, hdone, hsame, Outcome.done_state, hclosed]
  rfl

/-- A run without an error passes the boundary behind the last instruction with its final stack. -/
theorem passes_end_of_run_eq_ok (h : (evaluator.run stack script).result = .ok ()) :
    ∃ m, evaluator.Passes stack script script.instructions [] m ∧
      (evaluator.run stack script).stack = m.stack ∧
      (evaluator.run stack script).evaluator.conditions = [] := by
  obtain ⟨m, hpasses, -, -, hrun⟩ := run_eq_of_result_eq_ok h
  exact ⟨m, hpasses, by rw [hrun], by rw [hrun]⟩

end Evaluator

end SpendCheck
