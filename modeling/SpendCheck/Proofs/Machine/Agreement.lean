import SpendCheck.Proofs.Machine.Boundary

namespace SpendCheck

namespace Context

variable {first second : Context}

/-- A scan reads its context only through the questions that it puts. -/
theorem scan_congr (h : ∀ code sig pubkey, first.ask code sig pubkey = second.ask code sig pubkey)
    (code : Script) (sigs keys : List Bytes) :
    first.scan code sigs keys = second.scan code sigs keys := by
  induction keys generalizing sigs with
  | nil => cases sigs <;> rfl
  | cons key keys ih =>
    cases sigs with
    | nil => rfl
    | cons sig sigs => simp only [scan, h, ih]

/-- An evaluation cannot tell the contexts apart: the script is the same, and the flags
and the checker, which need not be the same, answer every question alike. -/
structure Agrees (first second : Context) : Prop where
  script_eq : first.script = second.script
  ask_eq : ∀ code sig pubkey, first.ask code sig pubkey = second.ask code sig pubkey
  nullDummy_eq : first.flags.has .nullDummy = second.flags.has .nullDummy

namespace Agrees

variable (h : first.Agrees second)
include h

theorem scriptCode (m : Machine) : m.scriptCode first = m.scriptCode second := by
  simp only [Machine.scriptCode, h.script_eq]

theorem checkSig (m : Machine) : m.checkSig first = m.checkSig second := by
  simp only [Machine.checkSig, h.scriptCode, h.ask_eq]

theorem settleMultiSig (args : MultiSig) (m : Machine) :
    m.settleMultiSig first args = m.settleMultiSig second args := by
  simp only [Machine.settleMultiSig, h.scriptCode, scan_congr h.ask_eq, h.nullDummy_eq]

theorem checkMultiSig (m : Machine) : m.checkMultiSig first = m.checkMultiSig second := by
  simp only [Machine.checkMultiSig, h.settleMultiSig]

/-- Only the operations that check signatures look at the context. -/
theorem execute (operation : Operation) (m : Machine) :
    m.execute first operation = m.execute second operation := by
  cases operation with
  | checkSig => exact h.checkSig m
  | checkSigVerify => simp only [Machine.execute, h.checkSig]
  | checkMultiSig => exact h.checkMultiSig m
  | checkMultiSigVerify => simp only [Machine.execute, h.checkMultiSig]
  | _ => rfl

theorem operate (operation : Operation) (m : Machine) :
    m.operate first operation = m.operate second operation := by
  simp only [Machine.operate, h.execute]

/-- Contexts that an evaluation cannot tell apart do the same step. -/
theorem step (instruction : Instruction) (m : Machine) :
    m.step first instruction = m.step second instruction := by
  have hperform : ∀ moved : Machine,
      moved.perform first instruction = moved.perform second instruction := by
    intro moved
    cases instruction with
    | push opcode payload => rfl
    | op opcode =>
      simp only [Machine.perform]
      congr 1
      funext counted
      exact h.operate _ counted
  simp only [Machine.step, hperform]

/-- Contexts that agree do the same over any number of instructions. -/
theorem steps (instructions : List Instruction) (m : Machine) :
    m.steps first instructions = m.steps second instructions := by
  induction instructions generalizing m with
  | nil => rfl
  | cons instruction rest ih =>
    simp only [Machine.steps, h.step]
    congr 1
    funext stepped
    exact ih stepped

theorem run (m : Machine) : m.run first = m.run second := by
  simp only [Machine.run, h.script_eq, h.steps]

end Agrees

end Context

/-- Whatever the script, the evaluators evaluate it in contexts that cannot be told
apart. What earlier evaluations left in them is not compared. -/
def Evaluator.Agrees (first second : Evaluator) : Prop :=
  ∀ script, (first.context script).Agrees (second.context script)

/-- The evaluations show their users the same, and leave evaluators that agree. -/
structure Evaluation.Agrees (first second : Evaluation) : Prop where
  result_eq : first.result = second.result
  stack_eq : first.stack = second.stack
  calls_eq : first.calls = second.calls
  evaluator : first.evaluator.Agrees second.evaluator

/-- Evaluations that agree stop at the same place, or go on in the same way. -/
theorem Evaluation.Agrees.andThen {first second : Evaluation}
    {next next' : Evaluator → Stack → Evaluation} (h : first.Agrees second)
    (hnext : ∀ left left' : Evaluator, left.Agrees left' → ∀ stack,
      (next left stack).Agrees (next' left' stack)) :
    (first.andThen next).Agrees (second.andThen next') := by
  obtain ⟨result, stack, calls, evaluator⟩ := first
  obtain ⟨_, _, _, evaluator'⟩ := second
  obtain ⟨rfl, rfl, rfl, hleft⟩ := h
  cases result with
  | error e => exact ⟨rfl, rfl, rfl, hleft⟩
  | ok _ =>
    obtain ⟨hresult, hstack, hcalls, hleft⟩ := hnext _ _ hleft stack
    exact ⟨hresult, hstack, congrArg (calls ++ ·) hcalls, hleft⟩

namespace Evaluator

variable {first second : Evaluator}

theorem Agrees.leave (h : first.Agrees second) (result : Except ScriptError Unit) (stack : Stack) :
    (first.leave result stack).Agrees (second.leave result stack) :=
  ⟨rfl, rfl, rfl, h⟩

/-- Evaluators that agree evaluate alike, whatever earlier evaluations left in them: an
evaluation does not begin before these leftovers are gone. -/
theorem Agrees.run (h : first.Agrees second) (stack : Stack) (script : Script) :
    (first.run stack script).Agrees (second.run stack script) := by
  by_cases hsize : maxScriptSize < script.length
  · rw [run_of_length_gt hsize, run_of_length_gt hsize]
    exact h.leave _ stack
  · have hle := Nat.not_lt.1 hsize
    have hstart : first.reset.start stack = second.reset.start stack := rfl
    rw [run_of_length_le first stack hle rfl, run_of_length_le second stack hle rfl, hstart,
      (h script).run]
    exact ⟨rfl, rfl, rfl, h⟩

end Evaluator

end SpendCheck
