import SpendCheck.Proofs.Machine.Displacement
import SpendCheck.Proofs.Spend.Workload

namespace SpendCheck

namespace Script

/-- Two scripts with a separator between them. -/
def joined (first second : Script) : Script :=
  first ++ Opcode.codeSeparator :: second

/-- A whole script, a separator and a second script are decoded one after the other. -/
theorem decode_joined {first : Script} (h : first.tail = []) (second : Script) :
    decode (first.joined second) =
      (first.instructions ++ .op Opcode.codeSeparator :: second.instructions, second.tail) := by
  have hvalid : (Instruction.op Opcode.codeSeparator).IsValid := by decide
  have hsecond : decode (Opcode.codeSeparator :: second) =
      (.op Opcode.codeSeparator :: (decode second).1, (decode second).2) :=
    decode_bytes_append hvalid second
  rw [joined, decode_append h]
  simp only [instructions, tail, hsecond]

theorem instructions_joined {first : Script} (h : first.tail = []) (second : Script) :
    (first.joined second).instructions =
      first.instructions ++ .op Opcode.codeSeparator :: second.instructions := by
  rw [instructions, decode_joined h]

theorem tail_joined {first : Script} (h : first.tail = []) (second : Script) :
    (first.joined second).tail = second.tail := by
  rw [tail, decode_joined h]

theorem drop_joined (first second : Script) (start : Nat) :
    (first.joined second).drop (start + (first.length + 1)) = second.drop start := by
  have hfirst : start + (first.length + 1) = first.length + (start + 1) := by omega
  rw [joined, hfirst, List.drop_length_add_append, List.drop_succ_cons]

theorem isCounted_of_isPushOnly {script : Script} (h : script.isPushOnly = true)
    {instruction : Instruction} (hmem : instruction ∈ script.instructions) :
    instruction.isCounted = false := by
  cases instruction with
  | push opcode payload => rfl
  | op opcode =>
    have hpush : opcode ≤ Opcode.sixteen := opcode_le_of_isPushOnly h hmem
    exact decide_eq_false (UInt8.not_lt.2 hpush)

end Script

namespace Machine

variable {context context' : Context} {m m' : Machine} {instruction : Instruction}
  {instructions : List Instruction}

/-! What checks no signatures does the same in every script. -/

theorem execute_of_checksNothing {operation : Operation} (h : operation.checksSignatures = false) :
    m.execute context operation = m.execute context' operation := by
  cases operation with
  | checkSig | checkSigVerify | checkMultiSig | checkMultiSigVerify => cases h
  | _ => rfl

/-- An instruction that checks no signatures does not depend on the context. -/
theorem step_of_checksNothing
    (h : ∀ opcode, instruction = .op opcode → (Operation.ofOpcode opcode).checksSignatures = false) :
    m.step context instruction = m.step context' instruction := by
  cases instruction with
  | push opcode payload => rfl
  | op opcode =>
    have hoperate : operate context (Operation.ofOpcode opcode) =
        operate context' (Operation.ofOpcode opcode) := by
      funext m
      unfold operate
      split
      · rfl
      · rfl
      · rw [execute_of_checksNothing (h opcode rfl)]
    simp only [step, perform, hoperate]

/-- Instructions that check no signatures do not depend on the context, so they may be part of a
longer script. -/
theorem steps_of_checksNothing (context context' : Context)
    (h : ∀ opcode, .op opcode ∈ instructions → (Operation.ofOpcode opcode).checksSignatures = false) :
    m.steps context instructions = m.steps context' instructions := by
  induction instructions generalizing m with
  | nil => rfl
  | cons instruction rest ih =>
    have hfirst : m.step context instruction = m.step context' instruction :=
      step_of_checksNothing fun opcode hop => h opcode (hop ▸ List.mem_cons_self)
    have hrest : steps context rest = steps context' rest := by
      funext stepped
      exact ih fun opcode hmem => h opcode (List.mem_cons_of_mem instruction hmem)
    rw [steps, steps, hfirst, hrest]

/-! The other stack stays empty unless an element is moved there. -/

/-- Only one operation puts something on the other stack. -/
theorem altStack_of_execute {operation : Operation} (hkind : operation ≠ .toAltStack)
    (hempty : m.altStack = []) (h : m.execute context operation = .done m') : m'.altStack = [] := by
  have hsame : (m.execute context operation).state.altStack = m.altStack := by
    cases operation with
    | nop | fail | disabled | undefined | codeSeparator => rfl
    | toAltStack => exact absurd rfl hkind
    | fromAltStack => simp only [execute, fromAltStack, hempty, Outcome.failed_state]
    | branching kind =>
      obtain ⟨stack, conditions, hstate⟩ := branching_state m kind
      rw [execute, hstate]
    | checkSig =>
      obtain ⟨stack, calls, hstate⟩ := checkSig_state context m
      rw [execute, hstate]
    | checkSigVerify =>
      obtain ⟨stack, calls, hstate⟩ := checkSig_state context m
      obtain ⟨_, hverify⟩ := andThen_onStack_state (m.checkSig context) (Stack.verify .checkSigVerify)
      rw [execute, hverify, hstate]
    | checkMultiSig =>
      obtain ⟨stack, opCount, calls, -, hstate⟩ := checkMultiSig_state context m
      rw [execute, hstate]
    | checkMultiSigVerify =>
      obtain ⟨stack, opCount, calls, -, hstate⟩ := checkMultiSig_state context m
      obtain ⟨_, hverify⟩ :=
        andThen_onStack_state (m.checkMultiSig context) (Stack.verify .checkMultiSigVerify)
      rw [execute, hverify, hstate]
    | _ => simp only [execute, onStack_state]
  rw [h, Outcome.done_state] at hsame
  exact hsame.trans hempty

theorem altStack_of_step
    (hkind : ∀ opcode, instruction = .op opcode → Operation.ofOpcode opcode ≠ .toAltStack)
    (hempty : m.altStack = []) (h : m.step context instruction = .done m') : m'.altStack = [] := by
  obtain ⟨hperforms, -⟩ := performs_of_step h
  cases hperforms with
  | push => exact hempty
  | skipPush => exact hempty
  | branch _ _ happly =>
    obtain ⟨stack, conditions, hstate⟩ := branching_state _ _
    rw [happly, Outcome.done_state] at hstate
    rw [hstate]
    exact hempty
  | @execute opcode _ _ _ _ hexecute =>
    refine altStack_of_execute (hkind opcode rfl) ?_ hexecute
    exact hempty
  | skip => exact hempty

/-- Without the opcode that moves elements there, the other stack stays empty. -/
theorem altStack_of_steps
    (hkind : ∀ opcode, .op opcode ∈ instructions → Operation.ofOpcode opcode ≠ .toAltStack)
    (hempty : m.altStack = []) (h : m.steps context instructions = .done m') : m'.altStack = [] := by
  induction instructions generalizing m with
  | nil =>
    cases h
    exact hempty
  | cons instruction rest ih =>
    obtain ⟨stepped, hstep, hrest⟩ := Outcome.andThen_eq_done_iff.1 h
    have hstepped : stepped.altStack = [] :=
      altStack_of_step (fun opcode hop => hkind opcode (hop ▸ List.mem_cons_self)) hempty hstep
    exact ih (fun opcode hmem => hkind opcode (List.mem_cons_of_mem instruction hmem)) hstepped hrest

/-- Stacks that are not too deep do not get too deep where steps succeed. -/
theorem depth_of_steps (hdepth : m.depth ≤ maxStackDepth)
    (h : m.steps context instructions = .done m') : m'.depth ≤ maxStackDepth :=
  steps_induction (P := fun m => m.depth ≤ maxStackDepth)
    (fun _ _ _ _ hstep => (performs_of_step hstep).2) hdepth h

/-! Pushes count nothing and open nothing, whether they succeed or fail. -/

/-- An instruction that is not counted only pushes. -/
theorem step_state_of_uncounted (context : Context) (m : Machine) (h : instruction.isCounted = false) :
    (m.step context instruction).state.opCount = m.opCount ∧
      (m.step context instruction).state.conditions = m.conditions := by
  rw [step_state]
  cases instruction with
  | push opcode payload =>
    simp only [perform, pushPayload]
    split
    · exact ⟨rfl, rfl⟩
    · split
      · rw [onStack_state]
        exact ⟨rfl, rfl⟩
      · exact ⟨rfl, rfl⟩
  | op opcode =>
    have huncounted : opcode.isCounted = false := h
    have hkind : (∃ value, Operation.ofOpcode opcode = .number value) ∨
        Operation.ofOpcode opcode = .undefined := by
      by_contra hother
      rw [not_or, not_exists] at hother
      have hcounted := Operation.isCounted_of_ofOpcode hother.1 hother.2
      rw [huncounted] at hcounted
      cases hcounted
    simp only [perform, huncounted, Bool.false_eq_true, if_false, Outcome.done_andThen]
    obtain ⟨value, hnumber⟩ | hundefined := hkind
    · simp only [hnumber, operate, execute]
      split
      · rw [onStack_state]
        exact ⟨rfl, rfl⟩
      · exact ⟨rfl, rfl⟩
    · simp only [hundefined, operate, execute]
      split <;> exact ⟨rfl, rfl⟩

/-- Instructions that are not counted open no conditional, also where they fail. -/
theorem steps_state_of_uncounted (context : Context) (m : Machine)
    (h : ∀ instruction ∈ instructions, instruction.isCounted = false) :
    (m.steps context instructions).state.opCount = m.opCount ∧
      (m.steps context instructions).state.conditions = m.conditions := by
  induction instructions generalizing m with
  | nil => exact ⟨rfl, rfl⟩
  | cons instruction rest ih =>
    have hfirst := step_state_of_uncounted context m (h instruction List.mem_cons_self)
    rw [steps]
    cases hstep : m.step context instruction with
    | failed e stopped =>
      rw [hstep] at hfirst
      exact hfirst
    | done stepped =>
      rw [hstep] at hfirst
      obtain ⟨hcount, hconditions⟩ := ih stepped fun later hmem => h later (List.mem_cons_of_mem _ hmem)
      exact ⟨hcount.trans hfirst.1, hconditions.trans hfirst.2⟩

/-- The place behind a part of the script in which operations have been counted and no
conditional is left open. -/
def behind (count offset : Nat) : Displacement where
  count := count
  offset := offset

variable {count offset : Nat}

theorem hidden_behind (evaluator : Evaluator) (first second : Script) (count : Nat) :
    (behind count (first.length + 1)).Hidden (evaluator.context second)
      (evaluator.context (first.joined second)) where
  executes_eq _ := rfl
  drop_eq start := first.drop_joined second start
  ask_eq _ _ _ := rfl
  nullDummy_eq := rfl

/-- Where no conditional is open before, the opcodes of conditionals do the same behind another
script. -/
theorem branches_behind (m : Machine) (instruction : Instruction) :
    (behind count offset).Branches m instruction := by
  intro kind left _ _
  have hopen : ∀ expected, (left.displace (behind count offset)).openConditional expected =
      (left.openConditional expected).map (displace (behind count offset)) := by
    intro expected
    unfold openConditional
    change (if left.executes = true then _ else _) = _
    have hstack : (left.displace (behind count offset)).stack = left.stack := rfl
    rw [hstack]
    split
    · split <;> rfl
    · rfl
  have hconditions : (left.displace (behind count offset)).conditions = left.conditions := rfl
  cases kind with
  | ifTrue => exact hopen true
  | ifFalse => exact hopen false
  | otherwise | endIf =>
    simp only [Branching.apply, hconditions]
    split <;> rfl

theorem finish_behind (m : Machine) (tail : Bytes) :
    (m.displace (behind count offset)).finish tail =
      (m.finish tail).map (displace (behind count offset)) := by
  have hconditions : (m.displace (behind count offset)).conditions = m.conditions := rfl
  unfold finish
  rw [hconditions]
  split
  · rfl
  · split <;> rfl

/-- Behind a separator a machine that has nothing but its stack and its count differs
from one that starts there on the same stack by the place alone. -/
theorem upToCount_step_separator (context : Context) (evaluator : Evaluator) (hopen : m.conditions = [])
    (halt : m.altStack = []) (hcalls : m.calls = []) (hdepth : m.stack.length ≤ maxStackDepth) :
    UpToCount (.done ((evaluator.reset.start m.stack).displace (behind (m.opCount + 1) (m.position + 1))))
      (m.step context (.op Opcode.codeSeparator)) := by
  obtain ⟨stack, altStack, conditions, opCount, separator, position, calls⟩ := m
  cases hopen
  cases halt
  cases hcalls
  apply upToCount_step_op
  · intro huncounted
    cases huncounted
  · rw [Operation.ofOpcode_codeSeparator]
    simp only [operate, passOver_op, execute, executes, List.all_nil, if_true, displace, behind,
      Evaluator.start, Evaluator.reset, Nat.zero_add]
    rfl
  · exact Nat.zero_add _
  · exact hdepth

/-- Where a script leaves nothing but its stack and its count, evaluating it joined with
a second one evaluates the second one on that stack. -/
theorem upToCount_run_joined {evaluator : Evaluator} {stack : Stack} {first second : Script}
    (hsteps : (evaluator.reset.start stack).steps (evaluator.context (first.joined second))
      first.instructions = .done m)
    (hwhole : first.tail = []) (hopen : m.conditions = []) (halt : m.altStack = [])
    (hcalls : m.calls = []) (hdepth : m.stack.length ≤ maxStackDepth) :
    UpToCount
      (((evaluator.reset.start m.stack).run (evaluator.context second)).map
        (displace (behind (m.opCount + 1) (first.length + 1))))
      ((evaluator.reset.start stack).run (evaluator.context (first.joined second))) := by
  have hrun : (evaluator.reset.start stack).run (evaluator.context (first.joined second)) =
      (m.step (evaluator.context (first.joined second)) (.op Opcode.codeSeparator)).andThen fun m =>
        (m.steps (evaluator.context (first.joined second)) second.instructions).andThen
          (finish second.tail) := by
    have hscript : (evaluator.context (first.joined second)).script = first.joined second := rfl
    rw [run, hscript, Script.instructions_joined hwhole, Script.tail_joined hwhole, steps_append,
      hsteps, Outcome.done_andThen, steps, Outcome.andThen_assoc]
  have hposition : m.position = first.length := by
    rw [steps_position hsteps, Script.flatMap_instructions_of_tail_eq_nil hwhole]
    exact Nat.zero_add _
  have hseparator := upToCount_step_separator (evaluator.context (first.joined second)) evaluator
    hopen halt hcalls hdepth
  rw [hposition] at hseparator
  rw [hrun]
  refine hseparator.andThen ?_ fun hroom => ?_
  · rw [Outcome.map_state]
    exact Nat.add_le_add_right (Nat.zero_le _) (m.opCount + 1)
  · rw [Outcome.done_andThen]
    refine Displacement.andThen ?_ (fun m => ?_) fun m _ hroom => ?_
    · exact (hidden_behind evaluator first second _).steps hroom fun _ instruction _ left _ _ =>
        branches_behind left instruction
    · rw [finish_state]
    · exact Displacement.upToCount_of_eq hroom (finish_behind m second.tail) (by rw [finish_state])

end Machine

/-- The evaluation does what is expected of it. It counts `more` operations besides those
that the expected one counts; where these are too many together it fails for this reason. -/
inductive Evaluation.AgreesUpToCount (more : Nat) (expected actual : Evaluation) : Prop
  | same (hroom : expected.evaluator.opCount + more ≤ maxOperations)
      (hresult : actual.result = expected.result) (hstack : actual.stack = expected.stack)
      (hcalls : actual.calls = expected.calls)
  | tooMany (hmany : maxOperations < expected.evaluator.opCount + more)
      (hresult : actual.result = .error .opCount)

namespace Evaluator

open Evaluation

variable {evaluator : Evaluator} {stack : Stack} {first second : Script}

theorem agreesUpToCount_of_machine {start : Stack} {script longer : Script} {more offset : Nat}
    (hle : script.length ≤ maxScriptSize) (hle' : longer.length ≤ maxScriptSize)
    (h : Machine.UpToCount
      (((evaluator.reset.start start).run (evaluator.context script)).map
        (Machine.displace (Machine.behind more offset)))
      ((evaluator.reset.start stack).run (evaluator.context longer))) :
    AgreesUpToCount more (evaluator.run start script) (evaluator.run stack longer) := by
  rw [run_of_length_le evaluator start hle rfl]
  generalize hactual : (evaluator.reset.start stack).run (evaluator.context longer) = actual at h
  rw [run_of_length_le evaluator stack hle' hactual]
  cases h with
  | same hroom =>
    rw [Outcome.map_state] at hroom
    refine .same hroom ?_ ?_ ?_
    · cases (evaluator.reset.start start).run (evaluator.context script) <;> rfl
    · rw [Outcome.map_state]
      rfl
    · rw [Outcome.map_state]
      rfl
  | tooMany hmany left =>
    rw [Outcome.map_state] at hmany
    exact .tooMany hmany rfl

/-- Where the first script succeeds, the joined one goes on with the second on the stack that
the first one leaves. -/
theorem agreesUpToCount_of_ok (hlength : (first.joined second).length ≤ maxScriptSize)
    (hstack : stack.length ≤ maxStackDepth) (hchecks : first.ChecksNothing)
    (halt : ∀ opcode, .op opcode ∈ first.instructions → Operation.ofOpcode opcode ≠ .toAltStack)
    (hok : (evaluator.run stack first).result = .ok ()) :
    AgreesUpToCount ((evaluator.run stack first).evaluator.opCount + 1)
      (evaluator.run (evaluator.run stack first).stack second)
      (evaluator.run stack (first.joined second)) := by
  have hcalls := run_calls_of_checksNothing evaluator stack hchecks
  obtain ⟨m, ⟨-, -, hsteps⟩, hwhole, hopen, hrun⟩ := run_eq_of_result_eq_ok hok
  rw [hrun] at hcalls ⊢
  have hempty := Machine.altStack_of_steps halt rfl hsteps
  have hdepth := Machine.depth_of_steps (m := evaluator.reset.start stack) hstack hsteps
  rw [Machine.depth, hempty, List.length_nil, Nat.add_zero] at hdepth
  have hsecond : second.length ≤ maxScriptSize := by
    rw [Script.joined, List.length_append, List.length_cons] at hlength
    omega
  rw [Machine.steps_of_checksNothing _ (evaluator.context (first.joined second)) hchecks] at hsteps
  exact agreesUpToCount_of_machine hsecond hlength
    (Machine.upToCount_run_joined hsteps hwhole hopen hempty hcalls hdepth)

theorem opCount_of_isPushOnly (hpushes : first.isPushOnly = true)
    (hok : (evaluator.run stack first).result = .ok ()) :
    (evaluator.run stack first).evaluator.opCount = 0 := by
  obtain ⟨m, ⟨-, -, hsteps⟩, -, -, hrun⟩ := run_eq_of_result_eq_ok hok
  obtain ⟨hcount, -⟩ := Machine.steps_state_of_uncounted (evaluator.context first)
    (evaluator.reset.start stack) fun _ hmem => Script.isCounted_of_isPushOnly hpushes hmem
  rw [hsteps] at hcount
  rw [hrun]
  exact hcount

/-- A script of pushes that fails does so with anything joined to it. -/
theorem agreesUpToCount_of_error {e : ScriptError}
    (hlength : (first.joined second).length ≤ maxScriptSize) (hpushes : first.isPushOnly = true)
    (herror : (evaluator.run stack first).result = .error e) :
    AgreesUpToCount 1 (evaluator.run stack first) (evaluator.run stack (first.joined second)) := by
  have hfirst : first.length ≤ maxScriptSize := by
    rw [Script.joined, List.length_append] at hlength
    omega
  have hwhole := Script.tail_of_isPushOnly hpushes
  have hchecks := Script.checksNothing_of_isPushOnly hpushes
  obtain ⟨hcount, hopen⟩ := Machine.steps_state_of_uncounted (evaluator.context first)
    (evaluator.reset.start stack) fun _ hmem => Script.isCounted_of_isPushOnly hpushes hmem
  have hscript : (evaluator.context first).script = first := rfl
  have hscript' : (evaluator.context (first.joined second)).script = first.joined second := rfl
  cases hsteps : (evaluator.reset.start stack).steps (evaluator.context first) first.instructions with
  | done m =>
    -- Nothing is left of the script and no conditional is open.
    rw [hsteps] at hopen
    have hdone : (evaluator.reset.start stack).run (evaluator.context first) = .done m := by
      rw [Machine.run, hscript, hsteps, hwhole]
      exact Machine.finish_eq_done_iff.2 ⟨rfl, hopen, rfl⟩
    rw [run_of_length_le evaluator stack hfirst hdone] at herror
    cases herror
  | failed e' m =>
    rw [hsteps] at hcount
    have hfailed : (evaluator.reset.start stack).run (evaluator.context first) = .failed e' m := by
      rw [Machine.run, hscript, hsteps]
      rfl
    have hfailed' : (evaluator.reset.start stack).run (evaluator.context (first.joined second)) =
        .failed e' m := by
      rw [Machine.steps_of_checksNothing _ (evaluator.context (first.joined second)) hchecks] at hsteps
      rw [Machine.run, hscript', Script.instructions_joined hwhole, Machine.steps_append, hsteps]
      rfl
    rw [run_of_length_le evaluator stack hfirst hfailed,
      run_of_length_le evaluator stack hlength hfailed']
    refine .same ?_ rfl rfl rfl
    have hnone : m.opCount = 0 := hcount
    have hroom : 0 + 1 ≤ maxOperations := by decide
    rwa [← hnone] at hroom

/-- An evaluation that asks nothing is followed by the next one as by itself. -/
theorem andThen_run_eq (hcalls : (evaluator.run stack first).calls = [])
    (hsecond : second.length ≤ maxScriptSize) (hok : (evaluator.run stack first).result = .ok ()) :
    ((evaluator.run stack first).andThen fun evaluator stack => evaluator.run stack second) =
      evaluator.run (evaluator.run stack first).stack second := by
  obtain ⟨m, -, -, -, hrun⟩ := run_eq_of_result_eq_ok hok
  rw [hrun] at hcalls ⊢
  have hnone : m.calls = [] := hcalls
  simp only [andThen, hnone, List.nil_append]
  rw [run_of_length_le evaluator m.stack hsecond rfl, run_of_length_le _ m.stack hsecond rfl]
  rfl

/-- A script that succeeds, without ever moving an element to the other stack or checking
signatures, may be joined by a separator with the script that is evaluated on the stack
it leaves: this agrees, also in what the checker is asked about which part of the script,
unless both count too many operations together. A script of pushes may be joined with
one that is evaluated after it also where it fails. -/
theorem run_joined_agrees (evaluator : Evaluator) {stack : Stack} {first second : Script}
    (hlength : first.length + 1 + second.length ≤ maxScriptSize)
    (hstack : stack.length ≤ maxStackDepth) :
    (first.ChecksNothing →
      (∀ opcode, .op opcode ∈ first.instructions → Operation.ofOpcode opcode ≠ .toAltStack) →
      (evaluator.run stack first).result = .ok () →
      AgreesUpToCount ((evaluator.run stack first).evaluator.opCount + 1)
        (evaluator.run (evaluator.run stack first).stack second)
        (evaluator.run stack (first ++ Opcode.codeSeparator :: second))) ∧
    (first.isPushOnly = true →
      AgreesUpToCount 1
        ((evaluator.run stack first).andThen fun evaluator stack => evaluator.run stack second)
        (evaluator.run stack (first ++ Opcode.codeSeparator :: second))) := by
  have hjoined : (first.joined second).length ≤ maxScriptSize := by
    rw [Script.joined, List.length_append, List.length_cons]
    omega
  refine ⟨agreesUpToCount_of_ok hjoined hstack, fun hpushes => ?_⟩
  cases hresult : (evaluator.run stack first).result with
  | error e =>
    rw [andThen_of_error hresult]
    exact agreesUpToCount_of_error hjoined hpushes hresult
  | ok _ =>
    have hchecks := Script.checksNothing_of_isPushOnly hpushes
    have halt : ∀ opcode, .op opcode ∈ first.instructions → Operation.ofOpcode opcode ≠ .toAltStack := by
      intro opcode hmem hkind
      have huncounted : opcode.isCounted = false := Script.isCounted_of_isPushOnly hpushes hmem
      have hcounted : opcode.isCounted = true :=
        Operation.isCounted_of_ofOpcode (by simp [hkind]) (by simp [hkind])
      rw [huncounted] at hcounted
      cases hcounted
    have hnone : (evaluator.run stack first).evaluator.opCount = 0 := opCount_of_isPushOnly hpushes hresult
    have hagrees := agreesUpToCount_of_ok hjoined hstack hchecks halt hresult
    rw [hnone] at hagrees
    rw [andThen_run_eq (run_calls_of_checksNothing evaluator stack hchecks) (by omega) hresult]
    exact hagrees

/-- A signature is pushed in a branch, and another one by a push alone. Joined with what
checks them, both show the checker the part behind the separator without the signature. -/
theorem pushed_signatures_joined_with_check :
    (Evaluator.run ⟨⟨0⟩, .ofPairs [([7], [5])], [false], 7⟩ [[1]]
      ([0x63, 0x01, 0x07, 0x68] ++ Opcode.codeSeparator :: [0x01, 0x05, 0xac])).calls =
        [⟨[7], [5], [0x01, 0x05, 0xac], true⟩] ∧
    (Evaluator.run ⟨⟨0⟩, .ofPairs [([7], [5])], [false], 7⟩ []
      ([0x01, 0x07] ++ Opcode.codeSeparator :: [0x01, 0x05, 0x01, 0x07, 0x75, 0xac])).calls =
        [⟨[7], [5], [0x01, 0x05, 0x75, 0xac], true⟩] := by
  have hdecoded : Script.instructions [0x63, 0x01, 0x07, 0x68] =
      [.op 0x63, .push 0x01 [0x07], .op 0x68] := by decide +kernel
  have hchecks : Script.ChecksNothing [0x63, 0x01, 0x07, 0x68] := by
    intro opcode hmem
    obtain rfl | rfl : opcode = 0x63 ∨ opcode = 0x68 := by simpa [hdecoded] using hmem
    · decide
    · decide
  have halt : ∀ opcode, .op opcode ∈ Script.instructions [0x63, 0x01, 0x07, 0x68] →
      Operation.ofOpcode opcode ≠ .toAltStack := by
    intro opcode hmem
    obtain rfl | rfl : opcode = 0x63 ∨ opcode = 0x68 := by simpa [hdecoded] using hmem
    · decide
    · decide
  have hpushes : Script.isPushOnly [0x01, 0x07] = true := by decide +kernel
  constructor
  · have hlength : ([0x63, 0x01, 0x07, 0x68] : Script).length + 1 +
        ([0x01, 0x05, 0xac] : Script).length ≤ maxScriptSize := by decide
    have hstack : ([[1]] : Stack).length ≤ maxStackDepth := by decide
    obtain ⟨hagrees, -⟩ :=
      run_joined_agrees ⟨⟨0⟩, .ofPairs [([7], [5])], [false], 7⟩ hlength hstack
    cases hagrees hchecks halt (by decide +kernel) with
    | same _ _ _ hcalls => exact hcalls.trans (by decide +kernel)
    | tooMany hmany _ => exact absurd hmany (by decide +kernel)
  · have hlength : ([0x01, 0x07] : Script).length + 1 +
        ([0x01, 0x05, 0x01, 0x07, 0x75, 0xac] : Script).length ≤ maxScriptSize := by decide
    have hstack : ([] : Stack).length ≤ maxStackDepth := by decide
    obtain ⟨-, hagrees⟩ :=
      run_joined_agrees ⟨⟨0⟩, .ofPairs [([7], [5])], [false], 7⟩ hlength hstack
    cases hagrees hpushes with
    | same _ _ _ hcalls => exact hcalls.trans (by decide +kernel)
    | tooMany hmany _ => exact absurd hmany (by decide +kernel)

end Evaluator

end SpendCheck
