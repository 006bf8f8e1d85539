import Mathlib.Tactic.Common
import SpendCheck.Proofs.Machine.Boundary
import SpendCheck.Proofs.Machine.Growth
import SpendCheck.Proofs.Machine.Step

namespace SpendCheck

/-- Pushes the number of elements on the stack. -/
def Opcode.depth : Opcode := 0x74

theorem Operation.eq_depth_of_ofOpcode {opcode : Opcode}
    (h : Operation.ofOpcode opcode = .stack .depth) : opcode = Opcode.depth := by
  unfold ofOpcode at h
  split at h
  · cases h
  · split at h
    · cases h
    · split at h <;> first | rfl | cases h

namespace Stack

/-- Where the operation succeeds, it does the same on top of more elements. -/
def IgnoresBelow (operation : Stack → Outcome Stack) : Prop :=
  ∀ stack left, operation stack = .done left → ∀ below, operation (stack ++ below) = .done (left ++ below)

variable {stack left below : Stack}

/-- What is below the stack makes no difference to a push. -/
theorem push_append {element : Bytes} (h : push element stack = .done left) (below : Stack) :
    push element (stack ++ below) = .done (left ++ below) := by
  unfold push at h ⊢
  split at h
  · cases h
  · next hshort =>
    cases h
    rw [if_neg hshort, List.cons_append]

theorem ignoresBelow_push (element : Bytes) : IgnoresBelow (push element) :=
  fun _ _ h below => push_append h below

/-- Operations that ignore what is below them can be chained. -/
theorem IgnoresBelow.andThen {first second : Stack → Outcome Stack} (hfirst : IgnoresBelow first)
    (hsecond : IgnoresBelow second) : IgnoresBelow fun stack => (first stack).andThen second := by
  intro stack left h below
  obtain ⟨between, hbetween, hleft⟩ := Outcome.andThen_eq_done_iff.1 h
  exact Outcome.andThen_eq_done_iff.2
    ⟨between ++ below, hfirst stack between hbetween below, hsecond between left hleft below⟩

theorem ignoresBelow_verify (error : ScriptError) : IgnoresBelow (verify error) := by
  intro stack left h below
  cases stack with
  | nil => cases h
  | cons element rest =>
    simp only [List.cons_append, verify] at h ⊢
    split at h
    · next htrue =>
      cases h
      rw [if_pos htrue]
    · cases h

theorem ignoresBelow_equal : IgnoresBelow equal := by
  intro stack left h below
  match stack with
  | [] => cases h
  | [_] => cases h
  | _ :: _ :: _ => exact push_append h below

theorem ignoresBelow_within : IgnoresBelow within := by
  intro stack left h below
  match stack with
  | [] => cases h
  | [_] => cases h
  | [_, _] => cases h
  | _ :: _ :: _ :: _ =>
    simp only [List.cons_append, within] at h ⊢
    split at h
    · cases h
    · cases h
    · cases h
    · exact push_append h below

/-- An element that is selected is one of those in the stack, at the same depth. -/
theorem select_append {next : Stack → Nat → Bytes → Outcome Stack}
    (hnext : ∀ stack left depth element, depth < stack.length → next stack depth element = .done left →
      ∀ below, next (stack ++ below) depth element = .done (left ++ below))
    (h : stack.select next = .done left) (below : Stack) :
    select next (stack ++ below) = .done (left ++ below) := by
  cases stack with
  | nil => cases h
  | cons index rest =>
    simp only [List.cons_append, select] at h ⊢
    split at h
    · cases h
    · split at h
      · cases h
      · next depth _ hnonneg =>
        cases helement : rest[depth.toNat]? with
        | none => simp [helement] at h
        | some element =>
          rw [helement] at h
          obtain ⟨hlt, -⟩ := List.getElem?_eq_some_iff.1 helement
          rw [if_neg hnonneg, List.getElem?_append_left hlt, helement]
          exact hnext rest left depth.toNat element hlt h below

end Stack

open Stack

theorem UnaryOperation.ignoresBelow_apply (kind : UnaryOperation) : IgnoresBelow kind.apply := by
  intro stack left h below
  cases stack with
  | nil => cases h
  | cons _ _ =>
    simp only [List.cons_append, apply] at h ⊢
    split at h
    · cases h
    · exact push_append h below

theorem BinaryOperation.ignoresBelow_apply (kind : BinaryOperation) : IgnoresBelow kind.apply := by
  intro stack left h below
  match stack with
  | [] => cases h
  | [_] => cases h
  | _ :: _ :: _ =>
    simp only [List.cons_append, apply] at h ⊢
    split at h
    · cases h
    · cases h
    · exact push_append h below

theorem HashOperation.ignoresBelow_apply (kind : HashOperation) : IgnoresBelow kind.apply := by
  intro stack left h below
  cases stack with
  | nil => cases h
  | cons _ _ => exact push_append h below

/-- Every rearrangement but one looks only at elements that are there and leaves the
others where they are. -/
theorem StackOperation.ignoresBelow_apply {kind : StackOperation} (hkind : kind ≠ .depth) :
    IgnoresBelow kind.apply := by
  intro stack left h below
  revert h
  fun_cases StackOperation.apply kind stack with
  -- Elements are dropped or moved.
  | case1 | case5 | case6 | case10 | case12 | case16 | case17 | case18 =>
    rintro ⟨⟩
    rfl
  -- Elements that are there are pushed.
  | case7 a rest htrue =>
    intro h
    simp only [List.cons_append, StackOperation.apply, if_pos htrue]
    exact push_append h below
  | case8 a rest hfalse =>
    rintro ⟨⟩
    simp only [List.cons_append, StackOperation.apply, if_neg hfalse]
  | case11 | case13 | case19 => exact fun h => push_append h below
  | case2 b a rest => exact fun h => (ignoresBelow_push a).andThen (ignoresBelow_push b) _ _ h below
  | case4 _ _ b a rest =>
    exact fun h => (ignoresBelow_push a).andThen (ignoresBelow_push b) _ _ h below
  | case3 c b a rest =>
    exact fun h =>
      ((ignoresBelow_push a).andThen (ignoresBelow_push b)).andThen (ignoresBelow_push c) _ _ h below
  | case14 =>
    intro h
    refine select_append (fun stack left depth element _ hpush below => ?_) h below
    exact push_append hpush below
  | case15 =>
    intro h
    refine select_append (fun stack left depth element hlt hpush below => ?_) h below
    rw [List.eraseIdx_append_of_lt_length hlt]
    exact push_append hpush below
  | case9 => exact absurd rfl hkind
  | case20 => rintro ⟨⟩

/-- The keys, the signatures and the element without a purpose are all there. -/
theorem MultiSig.ofStack?_append_below {keyCount : Nat} {stack : Stack} {args : MultiSig}
    (h : MultiSig.ofStack? keyCount stack = .ok args) (below : Stack) :
    MultiSig.ofStack? keyCount (stack ++ below) = .ok { args with base := args.base ++ below } := by
  unfold ofStack? at h ⊢
  split at h
  · cases h
  · next element rest hrest =>
    have hkeys : keyCount ≤ stack.length := by
      by_contra hshort
      simp [List.drop_eq_nil_of_le (Nat.le_of_not_le hshort)] at hrest
    rw [List.drop_append_of_le_length hkeys, List.take_append_of_le_length hkeys, hrest]
    cases hcount : Number.decodeCount keyCount .sigCount element with
    | error e => simp [hcount] at h
    | ok sigCount =>
      simp only [hcount, List.cons_append] at h ⊢
      split at h
      · cases h
      · next dummy base hbase =>
        cases h
        have hsigs : sigCount ≤ rest.length := by
          by_contra hshort
          simp [List.drop_eq_nil_of_le (Nat.le_of_not_le hshort)] at hbase
        rw [List.drop_append_of_le_length hsigs, List.take_append_of_le_length hsigs, hbase]
        rfl

namespace Machine

/-- The machine with more elements below those of its stack. -/
def above (below : Stack) (m : Machine) : Machine :=
  { m with stack := m.stack ++ below }

variable {context : Context} {m m' : Machine} {instruction : Instruction} {instructions : List Instruction}

@[simp] theorem above_depth (below : Stack) : (m.above below).depth = m.depth + below.length := by
  simp only [depth, above, List.length_append]
  omega

/-- An operation that ignores what is below it does so as a part of the machine. -/
theorem onStack_above {operation : Stack → Outcome Stack} (hoperation : IgnoresBelow operation)
    (h : m.onStack operation = .done m') (below : Stack) :
    (m.above below).onStack operation = .done (m'.above below) := by
  unfold onStack at h ⊢
  cases hleft : operation m.stack with
  | failed e left =>
    rw [hleft] at h
    cases h
  | done left =>
    rw [hleft] at h
    cases h
    have hsame : operation (m.above below).stack = .done (left ++ below) :=
      hoperation m.stack left hleft below
    rw [hsame]
    rfl

/-- A check of one signature takes no notice of what is below its two arguments. -/
theorem checkSig_above (h : m.checkSig context = .done m') (below : Stack) :
    (m.above below).checkSig context = .done (m'.above below) := by
  have hcode : (m.above below).scriptCode context = m.scriptCode context := rfl
  unfold checkSig at h ⊢
  split at h
  · next pubkey sig rest hstack =>
    cases hask : context.ask ((m.scriptCode context).deletePush sig) sig pubkey with
    | error e => simp [hask] at h
    | ok call =>
      simp only [hask, Outcome.done.injEq] at h
      have hstack' : (m.above below).stack = pubkey :: sig :: (rest ++ below) := by
        simp only [above, hstack, List.cons_append]
      simp only [hstack', hcode, hask]
      rw [← h]
      rfl
  · cases h

/-- What is below the arguments of a multiple signature check stays below the answer. -/
theorem settleMultiSig_above {args : MultiSig} (h : m.settleMultiSig context args = .done m')
    (below : Stack) :
    (m.above below).settleMultiSig context { args with base := args.base ++ below } =
      .done (m'.above below) := by
  have hcode : (m.above below).scriptCode context = m.scriptCode context := rfl
  simp only [settleMultiSig, hcode] at h ⊢
  split at h
  · cases h
  · next success _ =>
    split at h
    · cases h
    · next haccepted =>
      cases h
      rw [if_neg haccepted]
      rfl

/-- With more elements below it a multiple signature check finds the same arguments. -/
theorem checkMultiSig_above (h : m.checkMultiSig context = .done m') (below : Stack) :
    (m.above below).checkMultiSig context = .done (m'.above below) := by
  unfold checkMultiSig at h ⊢
  split at h
  · cases h
  · next element rest hstack =>
    have hstack' : (m.above below).stack = element :: (rest ++ below) := by
      simp only [above, hstack, List.cons_append]
    rw [hstack']
    cases hcount : Number.decodeCount maxKeys .pubkeyCount element with
    | error e => simp [hcount] at h
    | ok keyCount =>
      simp only [hcount] at h ⊢
      obtain ⟨counted, hcounted, hsettle⟩ := Outcome.andThen_eq_done_iff.1 h
      obtain ⟨hroom, rfl⟩ := countOperations_eq_done_iff.1 hcounted
      refine Outcome.andThen_eq_done_iff.2 ⟨_, countOperations_eq_done_iff.2 ⟨hroom, rfl⟩, ?_⟩
      cases hargs : MultiSig.ofStack? keyCount rest with
      | error e => simp [hargs] at hsettle
      | ok args =>
        rw [hargs] at hsettle
        rw [MultiSig.ofStack?_append_below hargs]
        exact settleMultiSig_above hsettle below

/-- A conditional that finds its element does not look further down. -/
theorem branching_above {kind : Branching} (h : kind.apply m = .done m') (below : Stack) :
    kind.apply (m.above below) = .done (m'.above below) := by
  have hopen : ∀ expected, m.openConditional expected = .done m' →
      (m.above below).openConditional expected = .done (m'.above below) := by
    intro expected hopened
    have hexecutes : (m.above below).executes = m.executes := rfl
    unfold openConditional at hopened ⊢
    rw [hexecutes]
    split at hopened
    · next htaken =>
      rw [if_pos htaken]
      split at hopened
      · cases hopened
      · next element rest hstack =>
        cases hopened
        simp only [above, hstack, List.cons_append]
    · next hskipped =>
      cases hopened
      rw [if_neg hskipped]
      rfl
  cases kind with
  | ifTrue => exact hopen true h
  | ifFalse => exact hopen false h
  | otherwise =>
    simp only [Branching.apply] at h
    split at h
    · cases h
    · next condition outer hconditions =>
      cases h
      simp only [Branching.apply, above, hconditions]
  | endIf =>
    simp only [Branching.apply] at h
    split at h
    · cases h
    · next condition outer hconditions =>
      cases h
      simp only [Branching.apply, above, hconditions]

/-- An operation that succeeds does the same with more elements below, unless it asks
how many elements there are. -/
theorem execute_above {operation : Operation} (hdepth : operation ≠ .stack .depth)
    (h : m.execute context operation = .done m') (below : Stack) :
    (m.above below).execute context operation = .done (m'.above below) := by
  have hverify : ∀ error (o o' : Outcome Machine), (∀ m, o = .done m → o' = .done (m.above below)) →
      (o.andThen fun m => m.onStack (verify error)) = .done m' →
      (o'.andThen fun m => m.onStack (verify error)) = .done (m'.above below) := by
    intro error o o' hsame hdone
    obtain ⟨checked, hchecked, hverified⟩ := Outcome.andThen_eq_done_iff.1 hdone
    exact Outcome.andThen_eq_done_iff.2
      ⟨_, hsame checked hchecked, onStack_above (ignoresBelow_verify error) hverified below⟩
  cases operation with
  | nop | codeSeparator =>
    cases h
    rfl
  | fail | disabled | undefined => cases h
  | branching kind => exact branching_above h below
  | number value => exact onStack_above (ignoresBelow_push _) h below
  | verify => exact onStack_above (ignoresBelow_verify _) h below
  | toAltStack =>
    simp only [execute, toAltStack] at h
    split at h
    · cases h
    · next element rest hstack =>
      cases h
      simp only [execute, toAltStack, above, hstack, List.cons_append]
  | fromAltStack =>
    simp only [execute, fromAltStack] at h
    split at h
    · cases h
    · next element rest halt =>
      have hpush := onStack_above (ignoresBelow_push element) h below
      have halt' : (m.above below).altStack = element :: rest := halt
      simp only [execute, fromAltStack, halt']
      exact hpush
  | stack kind =>
    have hkind : kind ≠ .depth := by
      rintro rfl
      exact hdepth rfl
    exact onStack_above (StackOperation.ignoresBelow_apply hkind) h below
  | equal => exact onStack_above ignoresBelow_equal h below
  | equalVerify => exact onStack_above (ignoresBelow_equal.andThen (ignoresBelow_verify _)) h below
  | unary kind => exact onStack_above kind.ignoresBelow_apply h below
  | binary kind => exact onStack_above kind.ignoresBelow_apply h below
  | numEqualVerify =>
    exact onStack_above
      ((BinaryOperation.ignoresBelow_apply _).andThen (ignoresBelow_verify _)) h below
  | within => exact onStack_above ignoresBelow_within h below
  | hash kind => exact onStack_above kind.ignoresBelow_apply h below
  | checkSig => exact checkSig_above h below
  | checkSigVerify => exact hverify _ _ _ (fun _ hcheck => checkSig_above hcheck below) h
  | checkMultiSig => exact checkMultiSig_above h below
  | checkMultiSigVerify => exact hverify _ _ _ (fun _ hcheck => checkMultiSig_above hcheck below) h

/-- Only the opcode that counts the elements notices that there are more of them below. -/
theorem perform_above (hdepth : instruction ≠ .op Opcode.depth)
    (h : m.perform context instruction = .done m') (below : Stack) :
    (m.above below).perform context instruction = .done (m'.above below) := by
  cases instruction with
  | push opcode payload =>
    have hexecutes : (m.above below).executes = m.executes := rfl
    simp only [perform, pushPayload, hexecutes] at h ⊢
    split at h
    · cases h
    · next hshort =>
      rw [if_neg hshort]
      split at h
      · next htaken =>
        rw [if_pos htaken]
        exact onStack_above (ignoresBelow_push payload) h below
      · next hskipped =>
        cases h
        rw [if_neg hskipped]
  | op opcode =>
    obtain ⟨counted, hcounted, hoperate⟩ := Outcome.andThen_eq_done_iff.1 h
    obtain ⟨hroom, rfl⟩ := count_eq_done_iff.1 hcounted
    refine Outcome.andThen_eq_done_iff.2 ⟨_, count_eq_done_iff.2 ⟨hroom, rfl⟩, ?_⟩
    have hkind : Operation.ofOpcode opcode ≠ .stack .depth := fun hkind =>
      hdepth (congrArg Instruction.op (Operation.eq_depth_of_ofOpcode hkind))
    unfold operate at hoperate ⊢
    split at hoperate
    · cases hoperate
    · exact branching_above hoperate below
    · have hexecutes : (m.above below).executes = m.executes := rfl
      change (if m.executes = true then _ else _) = _ at hoperate
      change (if (m.above below).executes = true then _ else _) = _
      rw [hexecutes]
      split at hoperate
      · next htaken =>
        rw [if_pos htaken]
        exact execute_above hkind hoperate below
      · next hskipped =>
        cases hoperate
        rw [if_neg hskipped]
        rfl

/-- So does an instruction, unless the stacks get too deep. -/
theorem step_above (hdepth : instruction ≠ .op Opcode.depth)
    (h : m.step context instruction = .done m') (below : Stack) :
    (m.above below).step context instruction = (m'.above below).checkDepth := by
  obtain ⟨performed, hperform, hmeasured⟩ := Outcome.andThen_eq_done_iff.1 h
  obtain ⟨-, rfl⟩ := checkDepth_eq_done_iff.1 hmeasured
  have hsame := perform_above hdepth hperform below
  change (perform context (above below { m with position := m.position + instruction.size })
    instruction).andThen checkDepth = _
  rw [hsame, Outcome.done_andThen]

/-- Several instructions that succeed do the same with more elements below, as long as
there is room for these at every place behind one of the instructions. The first place
where there is none ends the evaluation. -/
theorem steps_above (hdepth : .op Opcode.depth ∉ instructions)
    (h : m.steps context instructions = .done m') (below : Stack) :
    (m.above below).steps context instructions = .done (m'.above below) ∧
      (∀ before instruction after left, instructions = before ++ instruction :: after →
        m.steps context (before ++ [instruction]) = .done left →
        left.depth + below.length ≤ maxStackDepth) ∨
    ∃ before instruction after left, instructions = before ++ instruction :: after ∧
      m.steps context (before ++ [instruction]) = .done left ∧
      maxStackDepth < left.depth + below.length ∧
      (m.above below).steps context instructions = .failed .stackSize (left.above below) := by
  induction instructions generalizing m with
  | nil =>
    cases h
    exact .inl ⟨rfl, fun before instruction after left hsplit => absurd hsplit (by simp)⟩
  | cons instruction rest ih =>
    obtain ⟨stepped, hstep, hrest⟩ := Outcome.andThen_eq_done_iff.1 h
    have hfirst := step_above (fun heq => hdepth (heq ▸ List.mem_cons_self)) hstep below
    by_cases hroom : stepped.depth + below.length ≤ maxStackDepth
    · rw [checkDepth_of_le ((above_depth below).symm ▸ hroom)] at hfirst
      have hsteps : (m.above below).steps context (instruction :: rest) =
          (stepped.above below).steps context rest := by
        rw [steps, hfirst, Outcome.done_andThen]
      rw [hsteps]
      obtain ⟨hdone, hplaces⟩ | ⟨before, later, after, left, rfl, hleft, hdeep, hfailed⟩ :=
        ih (fun hmem => hdepth (List.mem_cons_of_mem instruction hmem)) hrest
      · refine .inl ⟨hdone, fun before later after left hsplit hleft => ?_⟩
        cases before with
        | nil =>
          cases hsplit
          rw [List.nil_append, steps_singleton, hstep] at hleft
          cases hleft
          exact hroom
        | cons first before =>
          cases hsplit
          rw [List.cons_append, steps, hstep, Outcome.done_andThen] at hleft
          exact hplaces before later after left rfl hleft
      · refine .inr ⟨instruction :: before, later, after, left, rfl, ?_, hdeep, hfailed⟩
        rw [List.cons_append, steps, hstep]
        exact hleft
    · have hdeep := Nat.not_le.1 hroom
      refine .inr ⟨[], instruction, rest, stepped, rfl, ?_, hdeep, ?_⟩
      · rw [List.nil_append, steps_singleton, hstep]
      · rw [steps, hfirst, checkDepth_of_lt ((above_depth below).symm ▸ hdeep)]
        rfl

end Machine

namespace Evaluator

/-- A script that succeeds on a stack does the same on this stack with more elements
below, if it never asks how many there are: it leaves those below as they are, and asks
the checker the same. The only way for it to fail is that the stacks get too deep, and
this happens exactly if the elements do not fit below the stacks behind one of the
instructions. -/
theorem run_above (evaluator : Evaluator) {stack : Stack} {script : Script}
    (hdepth : .op Opcode.depth ∉ script.instructions)
    (hok : (evaluator.run stack script).result = .ok ()) (below : Stack) :
    evaluator.run (stack ++ below) script =
        { evaluator.run stack script with stack := (evaluator.run stack script).stack ++ below } ∧
      (∀ before instruction after m,
        evaluator.Passes stack script (before ++ [instruction]) after m →
        m.depth + below.length ≤ maxStackDepth) ∨
    (evaluator.run (stack ++ below) script).result = .error .stackSize ∧
      ∃ before instruction after m,
        evaluator.Passes stack script (before ++ [instruction]) after m ∧
        maxStackDepth < m.depth + below.length := by
  obtain ⟨m, ⟨hle, -, hsteps⟩, hwhole, hclosed, hrun⟩ := run_eq_of_result_eq_ok hok
  have hscript : (evaluator.context script).script = script := rfl
  obtain ⟨hdone, hplaces⟩ | ⟨before, instruction, after, left, hsplit, hleft, hdeep, hfailed⟩ :=
    Machine.steps_above hdepth hsteps below
  · refine .inl ⟨?_, fun before instruction after left hpasses => ?_⟩
    · have hfinish : (m.above below).finish script.tail = .done (m.above below) :=
        Machine.finish_eq_done_iff.2 ⟨hwhole, hclosed, rfl⟩
      have hmachine : (evaluator.reset.start (stack ++ below)).run (evaluator.context script) =
          .done (m.above below) := by
        rw [Machine.run, hscript]
        exact Outcome.andThen_eq_done_iff.2 ⟨_, hdone, hfinish⟩
      rw [run_of_length_le evaluator _ hle hmachine, hrun, Outcome.done_state, Machine.above, hclosed]
      rfl
    · have hsplit : script.instructions = before ++ instruction :: after := by
        rw [hpasses.instructions_eq, List.append_assoc, List.singleton_append]
      exact hplaces before instruction after left hsplit hpasses.steps_eq
  · have hpasses : evaluator.Passes stack script (before ++ [instruction]) after left :=
      ⟨hle, by rw [hsplit, List.append_assoc, List.singleton_append], hleft⟩
    refine .inr ⟨?_, before, instruction, after, left, hpasses, hdeep⟩
    have hmachine : (evaluator.reset.start (stack ++ below)).run (evaluator.context script) =
        .failed .stackSize (left.above below) := by
      rw [Machine.run, hscript]
      exact congrArg (Outcome.andThen · _) hfailed
    rw [run_of_length_le evaluator _ hle hmachine]
    rfl

/-- An element taken from a depth that the stack gives: one more element below stays
where it is, and 999 of them do not fit. -/
theorem roll_above_one_and_many :
    (Evaluator.run ⟨.standard, .refuseAll, [false], 7⟩ [[1], [5], [6], [9]] [0x7a]).stack =
      [[6], [5]] ++ [[9]] ∧
    (Evaluator.run ⟨.standard, .refuseAll, [false], 7⟩ ([[1], [5], [6]] ++ List.replicate 999 [])
      [0x7a]).result = .error .stackSize := by
  have hdecoded : Script.instructions [0x7a] = [.op 0x7a] := by decide +kernel
  have hdepth : .op Opcode.depth ∉ Script.instructions [0x7a] := by
    rw [hdecoded]
    decide
  have hok : (Evaluator.run ⟨.standard, .refuseAll, [false], 7⟩ [[1], [5], [6]] [0x7a]).result =
      .ok () := by
    decide +kernel
  constructor
  · obtain ⟨hsame, -⟩ | ⟨hfailed, -⟩ := run_above _ hdepth hok [[9]]
    · have hstack := congrArg Evaluation.stack hsame
      exact hstack.trans (by decide +kernel)
    · exact absurd hfailed (by decide +kernel)
  · obtain ⟨-, hplaces⟩ | ⟨hfailed, -⟩ := run_above _ hdepth hok (List.replicate 999 [])
    · have hpasses : Evaluator.Passes ⟨.standard, .refuseAll, [false], 7⟩ [[1], [5], [6]] [0x7a]
          ([] ++ [.op 0x7a]) [] { stack := [[6], [5]], opCount := 1, position := 1 } :=
        ⟨by decide, hdecoded, rfl⟩
      exact absurd (hplaces _ _ _ _ hpasses) (by decide +kernel)
    · exact hfailed

end Evaluator

end SpendCheck
