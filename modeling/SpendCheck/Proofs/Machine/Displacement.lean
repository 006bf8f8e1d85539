import SpendCheck.Proofs.Machine.Agreement
import SpendCheck.Proofs.Machine.Counting
import SpendCheck.Proofs.Script.Nesting

namespace SpendCheck

namespace Outcome

variable {σ τ υ : Type}

theorem map_map (o : Outcome σ) (f : σ → τ) (g : τ → υ) :
    (o.map f).map g = o.map fun s => g (f s) := by
  cases o <;> rfl

@[simp] theorem map_state (o : Outcome σ) (f : σ → τ) : (o.map f).state = f o.state := by
  cases o <;> rfl

end Outcome

/-- How a machine differs from one that evaluates the same instructions at another
place: in the conditionals around them, the operations counted before them, and the
offset where they begin. -/
structure Displacement where
  conditions : List Bool → List Bool := id
  count : Nat := 0
  offset : Nat := 0

namespace Machine

/-- No operation reduces the count, also where it fails. -/
theorem le_operate_opCount (context : Context) (m : Machine) (operation : Operation) :
    m.opCount ≤ (m.operate context operation).state.opCount := by
  have hexecute := (execute_position_opCount context m operation).2
  unfold operate
  split
  · exact Nat.le_refl _
  · exact hexecute
  · split
    · exact hexecute
    · exact Nat.le_refl _

/-- The machine at the other place. -/
def displace (d : Displacement) (m : Machine) : Machine :=
  { m with
    conditions := d.conditions m.conditions
    opCount := m.opCount + d.count
    separator := m.separator + d.offset
    position := m.position + d.offset }

end Machine

namespace Displacement

/-- Operations do not notice the other place: the conditionals around it are taken, the
part of the script that signatures sign is the same, and so are the rules for asking. -/
structure Hidden (d : Displacement) (context context' : Context) : Prop where
  executes_eq : ∀ conditions, (d.conditions conditions).all id = conditions.all id
  drop_eq : ∀ start, context'.script.drop (start + d.offset) = context.script.drop start
  ask_eq : ∀ code sig pubkey, context'.ask code sig pubkey = context.ask code sig pubkey
  nullDummy_eq : context'.flags.has .nullDummy = context.flags.has .nullDummy

variable {d : Displacement} {context context' : Context} {m : Machine}

theorem Hidden.executes_displace (h : d.Hidden context context') (m : Machine) :
    (m.displace d).executes = m.executes :=
  h.executes_eq m.conditions

theorem Hidden.scriptCode_displace (h : d.Hidden context context') (m : Machine) :
    (m.displace d).scriptCode context' = m.scriptCode context :=
  h.drop_eq m.separator

theorem Hidden.scan_eq (h : d.Hidden context context') (code : Script) (sigs keys : List Bytes) :
    context'.scan code sigs keys = context.scan code sigs keys :=
  Context.scan_congr h.ask_eq code sigs keys

/-! The parts of a step that count nothing do the same at the other place. -/

theorem onStack (d : Displacement) (m : Machine) (operation : Stack → Outcome Stack) :
    (m.displace d).onStack operation = (m.onStack operation).map (Machine.displace d) := by
  simp only [Machine.onStack, Outcome.map_map]
  rfl

theorem checkDepth (d : Displacement) (m : Machine) :
    (m.displace d).checkDepth = m.checkDepth.map (Machine.displace d) := by
  unfold Machine.checkDepth
  change (if maxStackDepth < m.depth then _ else _) = _
  split <;> rfl

/-- A signature check does not see the displacement, as the script code is the same. -/
theorem Hidden.checkSig (h : d.Hidden context context') (m : Machine) :
    (m.displace d).checkSig context' = (m.checkSig context).map (Machine.displace d) := by
  have hstack : (m.displace d).stack = m.stack := rfl
  simp only [Machine.checkSig, hstack, h.scriptCode_displace, h.ask_eq]
  split
  · split <;> rfl
  · rfl

/-- The matching of several signatures does not see the displacement either. -/
theorem Hidden.settleMultiSig (h : d.Hidden context context') (m : Machine) (args : MultiSig) :
    (m.displace d).settleMultiSig context' args =
      (m.settleMultiSig context args).map (Machine.displace d) := by
  simp only [Machine.settleMultiSig, h.scriptCode_displace, h.scan_eq, h.nullDummy_eq]
  split
  · rfl
  · split <;> rfl

/-- An operation that acts on stacks alone does the same at every place of a script. -/
theorem execute_of_actsOnStacks (d : Displacement) (context context' : Context) (m : Machine)
    {operation : Operation} (hacts : operation.actsOnStacks = true) :
    (m.displace d).execute context' operation =
      (m.execute context operation).map (Machine.displace d) := by
  have hstack : (m.displace d).stack = m.stack := rfl
  have haltStack : (m.displace d).altStack = m.altStack := rfl
  cases operation with
  | nop => rfl
  | fail => rfl
  | disabled => rfl
  | undefined => rfl
  | toAltStack =>
    simp only [Machine.execute, Machine.toAltStack, hstack]
    split <;> rfl
  | fromAltStack =>
    simp only [Machine.execute, Machine.fromAltStack, haltStack]
    split
    · rfl
    · next element rest _ =>
      have hpush : (Machine.displace d { m with altStack := rest }).onStack (Stack.push element) = _ :=
        d.onStack _ _
      exact hpush
  | branching kind => cases hacts
  | codeSeparator => cases hacts
  | checkSig => cases hacts
  | checkSigVerify => cases hacts
  | checkMultiSig => cases hacts
  | checkMultiSigVerify => cases hacts
  | equalVerify => exact d.onStack m fun stack => stack.equal.andThen (Stack.verify .equalVerify)
  | numEqualVerify =>
    exact d.onStack m fun stack =>
      (BinaryOperation.numEqual.apply stack).andThen (Stack.verify .numEqualVerify)
  | _ => exact d.onStack m _

/-! Counting may fail at the other place where it would succeed here. -/

/-- A part that counts nothing fails for no reason of its own. -/
theorem upToCount_of_eq {o actual : Outcome Machine} (hroom : m.opCount + d.count ≤ maxOperations)
    (hsame : actual = o.map (Machine.displace d)) (hcount : o.state.opCount = m.opCount) :
    Machine.UpToCount (o.map (Machine.displace d)) actual := by
  apply Machine.UpToCount.of_eq hsame
  rw [Outcome.map_state, Machine.displace, hcount]
  exact hroom

/-- What happens at both places is followed by what happens at both places, as long as the
operations do not run out. -/
theorem andThen {o actual : Outcome Machine} {next next' : Machine → Outcome Machine}
    (h : Machine.UpToCount (o.map (Machine.displace d)) actual)
    (hle : ∀ m, m.opCount ≤ (next m).state.opCount)
    (hnext : ∀ m, o = .done m → m.opCount + d.count ≤ maxOperations →
      Machine.UpToCount ((next m).map (Machine.displace d)) (next' (m.displace d))) :
    Machine.UpToCount ((o.andThen next).map (Machine.displace d)) (actual.andThen next') := by
  cases o with
  | done m =>
    refine h.andThen ?_ (hnext m rfl)
    rw [Outcome.map_state, Outcome.map_state]
    exact Nat.add_le_add_right (hle m) d.count
  | failed e m => exact h.andThen (Nat.le_refl _) .same

/-- Operations are counted on top of those that were counted before. -/
theorem countOperations (d : Displacement) (m : Machine) (counted : Nat) :
    Machine.UpToCount ((m.countOperations counted).map (Machine.displace d))
      ((m.displace d).countOperations counted) := by
  have hactual := Machine.upToCount_countOperations (m.displace d) counted
  have hsame : { m.displace d with opCount := (m.displace d).opCount + counted } =
      Machine.displace d { m with opCount := m.opCount + counted } := by
    simp only [Machine.displace, Nat.add_right_comm]
  rw [hsame] at hactual
  by_cases hroom : m.opCount + counted ≤ maxOperations
  · rw [Machine.countOperations_of_le hroom]
    exact hactual
  · -- Here there are too many operations already.
    have hmany : maxOperations < m.opCount + counted := Nat.not_le.1 hroom
    have hfails : m.countOperations counted = .failed .opCount { m with opCount := m.opCount + counted } :=
      if_pos hmany
    have hfails' : (m.displace d).countOperations counted =
        .failed .opCount { m.displace d with opCount := (m.displace d).opCount + counted } := by
      apply if_pos
      change maxOperations < m.opCount + d.count + counted
      omega
    rw [hfails, hfails']
    apply Machine.UpToCount.tooMany
    exact Nat.lt_add_right d.count hmany

/-- A multiple signature check does the same at the other place, unless its keys are too many
operations there. -/
theorem Hidden.checkMultiSig (h : d.Hidden context context')
    (hroom : m.opCount + d.count ≤ maxOperations) :
    Machine.UpToCount ((m.checkMultiSig context).map (Machine.displace d))
      ((m.displace d).checkMultiSig context') := by
  have hstack : (m.displace d).stack = m.stack := rfl
  unfold Machine.checkMultiSig
  rw [hstack]
  split
  · exact .same hroom
  · split
    · exact .same hroom
    · refine andThen (d.countOperations m _) (fun m => ?_) fun m _ hroom => ?_
      · split
        · exact Nat.le_refl _
        · next args _ =>
          obtain ⟨stack, calls, hstate⟩ := Machine.settleMultiSig_state context m args
          exact hstate ▸ Nat.le_refl _
      · split
        · exact .same hroom
        · next args _ =>
          obtain ⟨stack, calls, hstate⟩ := Machine.settleMultiSig_state context m args
          exact upToCount_of_eq hroom (h.settleMultiSig m args) (by rw [hstate])

/-- An operation on the stack may follow, since a displacement leaves the stack alone. -/
theorem andThen_onStack {o actual : Outcome Machine} {operation : Stack → Outcome Stack}
    (h : Machine.UpToCount (o.map (Machine.displace d)) actual) :
    Machine.UpToCount ((o.andThen fun m => m.onStack operation).map (Machine.displace d))
      (actual.andThen fun m => m.onStack operation) := by
  have hcount : ∀ m : Machine, (m.onStack operation).state.opCount = m.opCount := by
    intro m
    rw [Machine.onStack_state]
  exact andThen h (fun m => Nat.le_of_eq (hcount m).symm) fun m _ hroom =>
    upToCount_of_eq hroom (d.onStack m operation) (hcount m)

/-- Conditionals apart, every operation does the same at the other place. -/
theorem Hidden.execute (h : d.Hidden context context') {operation : Operation}
    (hroom : m.opCount + d.count ≤ maxOperations) (hother : ∀ kind, operation ≠ .branching kind) :
    Machine.UpToCount ((m.execute context operation).map (Machine.displace d))
      ((m.displace d).execute context' operation) := by
  cases hacts : operation.actsOnStacks with
  | true =>
    obtain ⟨stack, altStack, hstate⟩ := Machine.execute_state_of_actsOnStacks context m hacts
    exact upToCount_of_eq hroom (d.execute_of_actsOnStacks context context' m hacts) (by rw [hstate])
  | false =>
    cases operation with
    | branching kind => exact absurd rfl (hother kind)
    | codeSeparator => exact .same hroom
    | checkSig =>
      obtain ⟨stack, calls, hstate⟩ := Machine.checkSig_state context m
      exact upToCount_of_eq hroom (h.checkSig m) (by rw [Machine.execute, hstate])
    | checkSigVerify =>
      obtain ⟨stack, calls, hstate⟩ := Machine.checkSig_state context m
      exact andThen_onStack (upToCount_of_eq hroom (h.checkSig m) (by rw [hstate]))
    | checkMultiSig => exact h.checkMultiSig hroom
    | checkMultiSigVerify => exact andThen_onStack (h.checkMultiSig hroom)
    | _ => cases hacts

/-- Opcodes of conditionals act on what surrounds the instructions, so that they are left
to each displacement. -/
theorem Hidden.operate (h : d.Hidden context context') {operation : Operation}
    (hroom : m.opCount + d.count ≤ maxOperations)
    (hbranching : ∀ kind, operation = .branching kind →
      kind.apply (m.displace d) = (kind.apply m).map (Machine.displace d)) :
    Machine.UpToCount ((m.operate context operation).map (Machine.displace d))
      ((m.displace d).operate context' operation) := by
  unfold Machine.operate
  rw [h.executes_displace]
  split
  · exact .same hroom
  · next kind =>
    obtain ⟨stack, conditions, hstate⟩ := Machine.branching_state m kind
    exact upToCount_of_eq hroom (hbranching kind rfl) (by rw [hstate])
  · next hother =>
    split
    · exact h.execute hroom hother
    · exact .same hroom

theorem Hidden.pushPayload (h : d.Hidden context context') (m : Machine) (payload : Bytes) :
    (m.displace d).pushPayload payload = (m.pushPayload payload).map (Machine.displace d) := by
  unfold Machine.pushPayload
  rw [h.executes_displace]
  split
  · rfl
  · split
    · exact d.onStack m _
    · rfl

/-- The opcodes of conditionals, where the same conditionals are open, do the same to
them at the other place. -/
def Branches (d : Displacement) (m : Machine) (instruction : Instruction) : Prop :=
  ∀ kind (left : Machine), instruction.branching? = some kind → left.conditions = m.conditions →
    kind.apply (left.displace d) = (kind.apply left).map (Machine.displace d)

/-- An instruction does the same at the other place, if it does the same to the conditionals
there. -/
theorem Hidden.perform (h : d.Hidden context context') {instruction : Instruction}
    (hroom : m.opCount + d.count ≤ maxOperations) (hbranches : d.Branches m instruction) :
    Machine.UpToCount ((m.perform context instruction).map (Machine.displace d))
      ((m.displace d).perform context' instruction) := by
  cases instruction with
  | push opcode payload =>
    refine upToCount_of_eq hroom (h.pushPayload m payload) ?_
    simp only [Machine.perform, Machine.pushPayload]
    split
    · rfl
    · split
      · rw [Machine.onStack_state]
      · rfl
  | op opcode =>
    have hcount : Machine.UpToCount
        ((if opcode.isCounted = true then m.countOperations 1 else .done m).map (Machine.displace d))
        (if opcode.isCounted = true then (m.displace d).countOperations 1
          else .done (m.displace d)) := by
      split
      · exact d.countOperations m 1
      · exact .same hroom
    refine andThen hcount (fun _ => Machine.le_operate_opCount _ _ _) fun counted hcounted hroom => ?_
    obtain ⟨-, rfl⟩ := Machine.count_eq_done_iff.1 hcounted
    exact h.operate hroom fun kind hkind =>
      hbranches kind _ (Instruction.branching?_of_ofOpcode hkind) rfl

/-- A step does the same at the other place. The depth that is measured after it is the same,
too. -/
theorem Hidden.step (h : d.Hidden context context') {instruction : Instruction}
    (hroom : m.opCount + d.count ≤ maxOperations) (hbranches : d.Branches m instruction) :
    Machine.UpToCount ((m.step context instruction).map (Machine.displace d))
      ((m.displace d).step context' instruction) := by
  have hmoved : { m.displace d with position := (m.displace d).position + instruction.size } =
      Machine.displace d { m with position := m.position + instruction.size } := by
    simp only [Machine.displace, Nat.add_right_comm]
  have hperform := h.perform (m := { m with position := m.position + instruction.size }) hroom hbranches
  rw [Machine.step, Machine.step, hmoved]
  refine andThen hperform (fun m => ?_) fun m _ hroom => ?_
  · exact Nat.le_of_eq (by rw [Machine.checkDepth_state])
  · exact upToCount_of_eq hroom (d.checkDepth m) (by rw [Machine.checkDepth_state])

/-- Several instructions do the same at the other place, as long as they do not count too
many operations there. -/
theorem Hidden.steps (h : d.Hidden context context') {instructions : List Instruction}
    (hroom : m.opCount + d.count ≤ maxOperations)
    (hbranches : ∀ before instruction after left, instructions = before ++ instruction :: after →
      m.steps context before = .done left → d.Branches left instruction) :
    Machine.UpToCount ((m.steps context instructions).map (Machine.displace d))
      ((m.displace d).steps context' instructions) := by
  induction instructions generalizing m with
  | nil => exact .same hroom
  | cons instruction rest ih =>
    have hstep := h.step hroom (hbranches [] instruction rest m rfl rfl)
    refine andThen hstep (fun m => Machine.le_steps_opCount context m rest) fun stepped hdone hroom => ?_
    refine ih hroom fun before later after left hsplit hleft => ?_
    refine hbranches (instruction :: before) later after left (congrArg _ hsplit) ?_
    rw [Machine.steps, hdone]
    exact hleft

end Displacement

end SpendCheck
