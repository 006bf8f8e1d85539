import Mathlib.Tactic.Common
import SpendCheck.Proofs.Machine.Boundary
import SpendCheck.Proofs.Machine.Matching

namespace SpendCheck

theorem Context.length_scan_calls_le (context : Context) (code : Script) (sigs keys : List Bytes) :
    (context.scan code sigs keys).calls.length ≤ keys.length := by
  simpa using (context.scan_calls_prefix code sigs keys).length_le

theorem MultiSig.length_keys_le {keyCount : Nat} {stack : Stack} {args : MultiSig}
    (h : MultiSig.ofStack? keyCount stack = .ok args) : args.keys.length ≤ keyCount := by
  unfold ofStack? at h
  split at h
  · cases h
  · next element below _ =>
    cases hcount : Number.decodeCount keyCount .sigCount element with
    | error e => simp [hcount] at h
    | ok sigCount =>
      simp only [hcount] at h
      split at h
      · cases h
      · cases h
        exact List.length_take_le keyCount stack

namespace Machine

/-- Every question so far was paid for by a counted operation, and none was put
after the operations ran out. -/
structure Charged (m : Machine) : Prop where
  calls_le_opCount : m.calls.length ≤ m.opCount
  calls_le : m.calls.length ≤ maxOperations

variable {context : Context} {m : Machine}

theorem Charged.count {opCount : Nat} (hm : m.Charged) (h : m.opCount ≤ opCount) :
    Charged { m with opCount := opCount } :=
  ⟨Nat.le_trans hm.calls_le_opCount h, hm.calls_le⟩

/-- The stacks, the conditions and the places do not matter. -/
theorem Charged.of_eq {left : Machine} (hm : m.Charged) (hcalls : left.calls = m.calls)
    (hcount : left.opCount = m.opCount) : left.Charged := by
  constructor
  · rw [hcalls, hcount]
    exact hm.calls_le_opCount
  · rw [hcalls]
    exact hm.calls_le

/-- A check of one signature has been paid for by its own opcode. -/
theorem Charged.checkSig (hm : m.Charged) (hpaid : m.calls.length < m.opCount)
    (hroom : m.opCount ≤ maxOperations) : (m.checkSig context).state.Charged := by
  apply checkSig_cases (P := fun o => o.state.Charged)
  · intro e
    exact hm
  · intro pubkey sig rest call _ _
    have hlength : (m.calls ++ [call]).length = m.calls.length + 1 := List.length_append
    exact ⟨hlength ▸ hpaid, hlength ▸ Nat.le_trans hpaid hroom⟩

/-- A check of several signatures pays for each key before it asks about any. -/
theorem Charged.checkMultiSig (hm : m.Charged) : (m.checkMultiSig context).state.Charged := by
  apply checkMultiSig_cases (P := fun o => o.state.Charged)
  · intro e
    exact hm
  · intro e keyCount
    exact hm.count (Nat.le_add_right _ _)
  · intro element below keyCount args _ _ hroom hargs
    have hscan := context.length_scan_calls_le ((m.scriptCode context).deletePushes args.sigs)
      args.sigs args.keys
    have hkeys := MultiSig.length_keys_le hargs
    have hcalls := hm.calls_le_opCount
    have hcharged : ∀ stack, Charged { m with
        stack := stack
        opCount := m.opCount + keyCount
        calls := m.calls ++ (context.scan ((m.scriptCode context).deletePushes args.sigs) args.sigs
          args.keys).calls } := by
      intro stack
      constructor
      · simp only [List.length_append]
        omega
      · simp only [List.length_append]
        omega
    exact settleMultiSig_cases (P := fun o => o.state.Charged) context
      { m with opCount := m.opCount + keyCount } args rfl (fun _ => hcharged _) (hcharged _)
      (fun _ => hcharged _)

theorem Charged.andThen_onStack {o : Outcome Machine} {operation : Stack → Outcome Stack}
    (h : o.state.Charged) : (o.andThen fun m => m.onStack operation).state.Charged := by
  obtain ⟨stack, hstate⟩ := andThen_onStack_state o operation
  rw [hstate]
  exact h.of_eq rfl rfl

/-- An operation puts no more questions than it has paid for: one by itself, or one for every
key. -/
theorem Charged.execute {operation : Operation} (hm : m.Charged)
    (hpaid : operation = .checkSig ∨ operation = .checkSigVerify →
      m.calls.length < m.opCount ∧ m.opCount ≤ maxOperations) :
    (m.execute context operation).state.Charged := by
  cases hacts : operation.actsOnStacks with
  | true =>
    obtain ⟨stack, altStack, hstate⟩ := execute_state_of_actsOnStacks context m hacts
    rw [hstate]
    exact hm.of_eq rfl rfl
  | false =>
    cases operation with
    | branching kind =>
      obtain ⟨stack, conditions, hstate⟩ := branching_state m kind
      rw [Machine.execute, hstate]
      exact hm.of_eq rfl rfl
    | codeSeparator => exact hm.of_eq rfl rfl
    | checkSig =>
      obtain ⟨hpaid, hroom⟩ := hpaid (.inl rfl)
      exact hm.checkSig hpaid hroom
    | checkSigVerify =>
      obtain ⟨hpaid, hroom⟩ := hpaid (.inr rfl)
      exact (hm.checkSig hpaid hroom).andThen_onStack
    | checkMultiSig => exact hm.checkMultiSig
    | checkMultiSigVerify => exact hm.checkMultiSig.andThen_onStack
    | _ => cases hacts

/-- Whether a step succeeds or fails, what it leaves is charged. -/
theorem Charged.step_state (hm : m.Charged) (context : Context) (instruction : Instruction) :
    (m.step context instruction).state.Charged := by
  have hmoved : Charged { m with position := m.position + instruction.size } := hm.of_eq rfl rfl
  rw [Machine.step_state]
  apply perform_cases (P := Charged)
  · intro opCount hle
    exact hmoved.count hle
  · intro payload
    rw [onStack_state]
    exact hmoved.of_eq rfl rfl
  · intro opcode opCount _ hle hcount _
    refine (hmoved.count hle).execute ?_
    intro hkind
    have hcounted : opcode.isCounted = true := by
      obtain hkind | hkind := hkind <;>
        exact Operation.isCounted_of_ofOpcode (by simp [hkind]) (by simp [hkind])
    obtain ⟨rfl, hroom⟩ := hcount hcounted
    exact ⟨Nat.lt_succ_of_le hm.calls_le_opCount, hroom⟩

end Machine

namespace Evaluator

variable {evaluator : Evaluator} {stack : Stack} {script : Script}

theorem start_charged (evaluator : Evaluator) (stack : Stack) : (evaluator.start stack).Charged :=
  ⟨Nat.zero_le _, Nat.zero_le _⟩

/-- At every boundary that is passed the operations have been paid for. -/
theorem Passes.charged {before after : List Instruction} {m : Machine}
    (h : evaluator.Passes stack script before after m) : m.Charged := by
  refine h.induction (start_charged _ stack) ?_
  intro m m' instruction hm hstep
  have hleft := hm.step_state (evaluator.context script) instruction
  rwa [hstep] at hleft

/-- An evaluation puts no more questions than it counts operations, and no more
than it may count, whether it succeeds or fails. -/
theorem length_run_calls_le (evaluator : Evaluator) (stack : Stack) (script : Script) :
    (evaluator.run stack script).calls.length ≤ (evaluator.run stack script).evaluator.opCount ∧
      (evaluator.run stack script).calls.length ≤ maxOperations := by
  by_cases hsize : maxScriptSize < script.length
  · rw [run_of_length_gt hsize]
    exact ⟨Nat.zero_le _, Nat.zero_le _⟩
  · rw [run_of_length_le evaluator stack (Nat.not_lt.1 hsize) rfl, Machine.run_state]
    have hleft := Machine.steps_state_induction (P := Machine.Charged)
      (fun m instruction hm => hm.step_state (evaluator.context script) instruction)
      (start_charged evaluator.reset stack) script.instructions
    exact ⟨hleft.calls_le_opCount, hleft.calls_le⟩

end Evaluator

end SpendCheck
