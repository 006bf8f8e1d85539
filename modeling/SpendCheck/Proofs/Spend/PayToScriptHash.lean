import Mathlib.Tactic.Common
import SpendCheck.Proofs.Machine.Step
import SpendCheck.Proofs.Script.Decoding
import SpendCheck.Proofs.Spend.Stages

namespace SpendCheck

namespace Script

/-- The script that asks for an element with a given digest and nothing else. -/
def payToHash (digest : Bytes) : Script :=
  Opcode.hash160 :: 0x14 :: (digest ++ [Opcode.equal])

variable {digest : Bytes}

theorem isPayToScriptHash_payToHash (h : digest.length = 20) :
    (payToHash digest).isPayToScriptHash = true := by
  simp [payToHash, isPayToScriptHash, h]

/-- The template has a digest in the middle and nothing else that is free. -/
theorem exists_eq_payToHash_of_isPayToScriptHash {script : Script}
    (h : script.isPayToScriptHash = true) :
    ∃ digest, digest.length = 20 ∧ script = payToHash digest := by
  simp only [isPayToScriptHash, Bool.and_eq_true, beq_iff_eq] at h
  obtain ⟨⟨⟨hlength, hfirst⟩, hsecond⟩, hlast⟩ := h
  obtain ⟨first, second, rest, rfl⟩ : ∃ first second rest, script = first :: second :: rest := by
    match script, hlength with
    | first :: second :: rest, _ => exact ⟨first, second, rest, rfl⟩
  cases hfirst
  cases hsecond
  have hrest : rest.length = 21 := by simpa using hlength
  have hend : rest.drop 20 = [Opcode.equal] := by
    refine List.ext_getElem? fun i => ?_
    rw [List.getElem?_drop]
    cases i with
    | zero => exact hlast
    | succ i =>
      rw [List.getElem?_eq_none (by omega)]
      rfl
  exact ⟨rest.take 20, by simp [hrest], by rw [payToHash, ← hend, List.take_append_drop]⟩

theorem toPayToScriptHash_eq (script : Script) :
    script.toPayToScriptHash = payToHash (Hash.hash160 script) := by
  have hlength : (Hash.hash160 script).length = 20 := Hash.length_hash160 script
  have hpush : pushValue (Hash.hash160 script) = 0x14 :: Hash.hash160 script := by
    unfold pushValue
    split
    · next hnil => simp [hnil] at hlength
    · next hone => simp [hone] at hlength
    · have hsmall : (20 : Nat) ≤ Opcode.pushDirectMax.toNat := by decide
      rw [pushData, hlength, if_pos hsmall]
      rfl
  simp only [toPayToScriptHash, build, scriptId, List.foldl_cons, List.foldl_nil, Piece.bytes, hpush,
    payToHash, List.nil_append, List.cons_append]

/-- The script hashes the top element, pushes the digest and compares the two. -/
theorem decode_payToHash (h : digest.length = 20) :
    decode (payToHash digest) =
      ([.op Opcode.hash160, .push 0x14 digest, .op Opcode.equal], []) := by
  have hdirect : (0x14 : Opcode) ≤ Opcode.pushDirectMax := by decide
  have hpush : (Instruction.push 0x14 digest).IsValid := Instruction.isValid_push_direct hdirect h
  have hbytes : payToHash digest = (Instruction.op Opcode.hash160).bytes ++
      ((Instruction.push 0x14 digest).bytes ++ ((Instruction.op Opcode.equal).bytes ++ [])) := by
    rw [Instruction.bytes_push_direct digest hdirect]
    simp [payToHash, Instruction.bytes]
  have hhash : (Instruction.op Opcode.hash160).IsValid := by decide
  have hequal : (Instruction.op Opcode.equal).IsValid := by decide
  rw [hbytes, decode_bytes_append hhash, decode_bytes_append hpush, decode_bytes_append hequal,
    decode_nil]

end Script

namespace Machine

variable {context : Context} {digest element : Bytes} {below : Stack}

/-! The machine between the three instructions of the template. -/

theorem step_template_hash :
    Machine.step context { stack := element :: below } (.op Opcode.hash160) =
      Machine.checkDepth { stack := Hash.hash160 element :: below, opCount := 1, position := 1 } := by
  have hoperation : Operation.ofOpcode Opcode.hash160 = .hash .hash160 := by decide
  have hsmall : ¬maxElementSize < 20 := by decide
  rw [step_op_of_executes rfl (by decide) (show 0 < maxOperations by decide), hoperation]
  simp [execute, onStack, HashOperation.apply, HashOperation.digest, Stack.push, Outcome.map, hsmall]

theorem step_template_push (h : digest.length = 20) :
    Machine.step context
      { stack := Hash.hash160 element :: below, opCount := 1, position := 1 } (.push 0x14 digest) =
      Machine.checkDepth
        { stack := digest :: Hash.hash160 element :: below, opCount := 1, position := 22 } := by
  have hsmall : digest.length ≤ maxElementSize := by
    rw [h]
    decide
  have hwidth : Instruction.lengthWidth 0x14 = 0 := by decide
  rw [step_push_of_executes rfl hsmall]
  simp only [Instruction.size, hwidth, h]

theorem step_template_equal :
    Machine.step context
      { stack := digest :: Hash.hash160 element :: below, opCount := 1, position := 22 }
      (.op Opcode.equal) =
      Machine.checkDepth
        { stack := Number.ofBool (digest == Hash.hash160 element) :: below,
          opCount := 2, position := 23 } := by
  have hoperation : Operation.ofOpcode Opcode.equal = .equal := by decide
  have hsmall : (Number.ofBool (digest == Hash.hash160 element)).length ≤ maxElementSize := by
    cases digest == Hash.hash160 element <;> decide
  rw [step_op_of_executes rfl (by decide) (show 1 < maxOperations by decide), hoperation]
  simp [execute, onStack, Stack.equal, Stack.push, Outcome.map, Nat.not_lt.2 hsmall]

/-- With room for one more element the template leaves whether the top element
has the digest. -/
theorem steps_template (h : digest.length = 20) (hroom : below.length + 2 ≤ maxStackDepth) :
    Machine.steps context [.op Opcode.hash160, .push 0x14 digest, .op Opcode.equal]
      { stack := element :: below } =
      .done { stack := Number.ofBool (digest == Hash.hash160 element) :: below,
              opCount := 2, position := 23 } := by
  simp only [steps, step_template_hash]
  rw [checkDepth_of_le (by simp [depth]; omega), Outcome.done_andThen, step_template_push h,
    checkDepth_of_le (by simp [depth]; omega), Outcome.done_andThen, step_template_equal,
    checkDepth_of_le (by simp [depth]; omega), Outcome.done_andThen]

/-- Without that room it fails, at the latest where the digest asked for lies
above the digest of the element. -/
theorem steps_template_of_full (h : digest.length = 20)
    (hfull : maxStackDepth < below.length + 2) :
    (Machine.steps context [.op Opcode.hash160, .push 0x14 digest, .op Opcode.equal]
      { stack := element :: below }).result = .error .stackSize := by
  simp only [steps, step_template_hash]
  by_cases hover : maxStackDepth < below.length + 1
  · rw [checkDepth_of_lt (by exact hover)]
    rfl
  · rw [checkDepth_of_le (by simp [depth]; omega), Outcome.done_andThen, step_template_push h,
      checkDepth_of_lt (by exact hfull)]
    rfl

theorem steps_template_of_empty :
    (Machine.steps context [.op Opcode.hash160, .push 0x14 digest, .op Opcode.equal]
      { stack := [] }).result = .error .invalidStackOperation := by
  have hoperation : Operation.ofOpcode Opcode.hash160 = .hash .hash160 := by decide
  simp only [steps]
  rw [step_op_of_executes rfl (by decide) (show 0 < maxOperations by decide), hoperation]
  rfl

end Machine

section Template

variable (flags : Flags) (checker : Checker) {digest element : Bytes} {below stack : Stack}

theorem evalScript_payToHash_eq (h : digest.length = 20) :
    ∃ o : Outcome Machine,
      (Machine.steps ⟨flags, checker, Script.payToHash digest⟩
        [.op Opcode.hash160, .push 0x14 digest, .op Opcode.equal] { stack := stack }).andThen
          (Machine.finish []) = o ∧
      (evalScript flags checker stack (Script.payToHash digest)).result = o.result ∧
      (evalScript flags checker stack (Script.payToHash digest)).stack = o.state.stack := by
  have hsize : (Script.payToHash digest).length ≤ maxScriptSize := by
    simp [Script.payToHash, h, maxScriptSize]
  simp only [evalScript_eq hsize, Machine.run, Script.instructions, Script.tail,
    Script.decode_payToHash h]
  exact ⟨_, rfl, rfl, rfl⟩

/-- With room for two more elements the template leaves the answer of the comparison. -/
theorem evalScript_payToHash_of_room (h : digest.length = 20)
    (hroom : below.length + 2 ≤ maxStackDepth) :
    (evalScript flags checker (element :: below) (Script.payToHash digest)).result = .ok () ∧
      (evalScript flags checker (element :: below) (Script.payToHash digest)).stack =
        Number.ofBool (digest == Hash.hash160 element) :: below := by
  obtain ⟨o, rfl, hresult, hstack⟩ := evalScript_payToHash_eq flags checker h
  rw [hresult, hstack, Machine.steps_template h hroom]
  exact ⟨rfl, rfl⟩

/-- Without room for two more elements the template fails for the size of the stack, before
anything is compared. -/
theorem evalScript_payToHash_of_full (h : digest.length = 20)
    (hfull : maxStackDepth < below.length + 2) :
    (evalScript flags checker (element :: below) (Script.payToHash digest)).result =
      .error .stackSize := by
  obtain ⟨o, rfl, hresult, _⟩ := evalScript_payToHash_eq flags checker h
  rw [hresult, Outcome.andThen_result_of_error (Machine.steps_template_of_full h hfull)]

theorem evalScript_payToHash_of_empty (h : digest.length = 20) :
    (evalScript flags checker [] (Script.payToHash digest)).result =
      .error .invalidStackOperation := by
  obtain ⟨o, rfl, hresult, _⟩ := evalScript_payToHash_eq flags checker h
  rw [hresult, Outcome.andThen_result_of_error Machine.steps_template_of_empty]

theorem isTrue_ofBool_cons (value : Bool) : Stack.isTrue (Number.ofBool value :: below) = value := by
  cases value <;> rfl

/-- The locking script accepts exactly a stack with room for one more element
whose top element has the digest. -/
theorem verdict_payToHash_eq_ok_iff (h : digest.length = 20) :
    (evalScript flags checker stack (Script.payToHash digest)).verdict = .ok () ↔
      ∃ element below, stack = element :: below ∧ below.length + 2 ≤ maxStackDepth ∧
        Hash.hash160 element = digest := by
  rw [Evaluation.verdict_eq_ok_iff]
  constructor
  · rintro ⟨hok, htrue⟩
    cases stack with
    | nil =>
      rw [evalScript_payToHash_of_empty flags checker h] at hok
      cases hok
    | cons element below =>
      have hroom : below.length + 2 ≤ maxStackDepth := by
        by_contra hfull
        rw [evalScript_payToHash_of_full flags checker h (Nat.lt_of_not_le hfull)] at hok
        cases hok
      rw [(evalScript_payToHash_of_room flags checker h hroom).2, isTrue_ofBool_cons] at htrue
      exact ⟨element, below, rfl, hroom, (beq_iff_eq.1 htrue).symm⟩
  · rintro ⟨element, below, rfl, hroom, rfl⟩
    obtain ⟨hok, hstack⟩ := evalScript_payToHash_of_room flags checker h hroom
    refine ⟨hok, ?_⟩
    rw [hstack, isTrue_ofBool_cons, beq_self_eq_true]

end Template

section Spend

variable {flags : Flags} (checker : Checker) {unlocking : Script} {digest element : Bytes}
  {below : Stack}

theorem redeems_payToHash (hp2sh : flags.has .p2sh = true) (h : digest.length = 20) :
    Evaluator.redeems { flags := flags, checker := checker } (Script.payToHash digest) = true :=
  Bool.and_eq_true_iff.2 ⟨hp2sh, Script.isPayToScriptHash_payToHash h⟩

/-- A spend whose unlocking script leaves a script with the digest, and room for
one more element, is decided by that script on the elements below it. -/
theorem verifyScript_payToHash_result (hp2sh : flags.has .p2sh = true) (h : digest.length = 20)
    (hpushes : unlocking.isPushOnly = true)
    (hunlock : (evalScript flags checker [] unlocking).result = .ok ())
    (hstack : (evalScript flags checker [] unlocking).stack = element :: below)
    (hroom : below.length + 2 ≤ maxStackDepth) (hdigest : Hash.hash160 element = digest) :
    (verifyScript flags checker unlocking (Script.payToHash digest)).result =
      (evalScript flags checker below element).verdict := by
  have hlock := (verdict_payToHash_eq_ok_iff flags checker h).2 ⟨element, below, rfl, hroom, hdigest⟩
  unfold verifyScript Evaluator.verify
  rw [if_neg (by simp [hpushes]), Evaluation.andThen_result_of_ok (by simpa using hunlock),
    Evaluation.andThen_result_of_ok]
  · have hredeems := redeems_payToHash checker hp2sh h
    simp only [hredeems, if_true, Evaluator.run_stack, hstack, Evaluator.redeem_cons_result,
      Evaluator.andThen_requireTrue_evaluator, Evaluator.run_evaluator_flags,
      Evaluator.run_evaluator_checker]
  · simpa only [Evaluator.andThen_requireTrue_result, Evaluator.run_verdict, Evaluator.run_stack,
      Evaluator.run_evaluator_flags, Evaluator.run_evaluator_checker, hstack] using hlock

/-- A spend of an output that commits to a script by its hash is accepted
exactly when the unlocking script only pushes, the element that it leaves on top
has the digest, there is room for one more element, and that element, evaluated
as a script on the elements below it, leaves a true element. Every script has
such a locking script, and its own verdict there is that of the spend. -/
theorem payToScriptHash_commits (hp2sh : flags.has .p2sh = true) (unlocking : Script) :
    (∀ digest, digest.length = 20 →
      ((verifyScript flags checker unlocking (Script.payToHash digest)).result = .ok () ↔
        unlocking.isPushOnly = true ∧ ∃ element below,
          (evalScript flags checker [] unlocking).result = .ok () ∧
          (evalScript flags checker [] unlocking).stack = element :: below ∧
          below.length + 2 ≤ maxStackDepth ∧ Hash.hash160 element = digest ∧
          (evalScript flags checker below element).result = .ok () ∧
          (evalScript flags checker below element).stack.isTrue = true)) ∧
    (∀ script, Script.isPayToScriptHash (Script.toPayToScriptHash script) = true) ∧
    (∀ script below, unlocking.isPushOnly = true →
      (evalScript flags checker [] unlocking).result = .ok () →
      (evalScript flags checker [] unlocking).stack = script :: below →
      below.length + 2 ≤ maxStackDepth →
      (verifyScript flags checker unlocking (Script.toPayToScriptHash script)).result =
        (evalScript flags checker below script).verdict) := by
  refine ⟨?_, ?_, ?_⟩
  · intro digest h
    constructor
    · intro hok
      obtain ⟨hpushes, unlocked, rfl, hunlock, hlock, hredeem⟩ :=
        (Evaluator.verify_result_eq_ok_iff _).1 hok
      have hredeems := redeems_payToHash checker hp2sh h
      obtain ⟨element, below, hstack, hroom, hdigest⟩ :=
        (verdict_payToHash_eq_ok_iff flags checker h).1 hlock
      obtain ⟨script, rest, hsplit, hrun⟩ := hredeem hredeems
      obtain ⟨rfl, rfl⟩ := List.cons.inj (hsplit.symm.trans hstack)
      obtain ⟨hrun, htop⟩ := Evaluation.verdict_eq_ok_iff.1 hrun
      exact ⟨hpushes (.inr hredeems), script, rest, hunlock, hstack, hroom, hdigest, hrun, htop⟩
    · rintro ⟨hpushes, element, below, hunlock, hstack, hroom, hdigest, hrun, htop⟩
      rw [verifyScript_payToHash_result checker hp2sh h hpushes hunlock hstack hroom hdigest]
      exact Evaluation.verdict_eq_ok_iff.2 ⟨hrun, htop⟩
  · intro script
    rw [Script.toPayToScriptHash_eq]
    exact Script.isPayToScriptHash_payToHash (Hash.length_hash160 script)
  · intro script below hpushes hunlock hstack hroom
    rw [Script.toPayToScriptHash_eq]
    exact verifyScript_payToHash_result checker hp2sh (Hash.length_hash160 script) hpushes hunlock
      hstack hroom rfl

/-- A committed script that asks for the sum of the two elements below it, with
the right summands and with a wrong one. -/
theorem payToScriptHash_commits_to_sum :
    Flags.default.has .p2sh = true ∧
    (verifyScript .default .refuseAll (Script.build [] [.number 2, .number 3, .value [0x93, 0x55, 0x87]])
      (Script.payToHash (Hash.hash160 [0x93, 0x55, 0x87]))).result = .ok () ∧
    (verifyScript .default .refuseAll (Script.build [] [.number 2, .number 4, .value [0x93, 0x55, 0x87]])
      (Script.toPayToScriptHash [0x93, 0x55, 0x87])).result = .error .evalFalse := by
  refine ⟨by decide, ?_, ?_⟩
  · refine ((payToScriptHash_commits .refuseAll (by decide) _).1 _ (Hash.length_hash160 _)).2
      ⟨by decide +kernel, [0x93, 0x55, 0x87], [[3], [2]], by decide +kernel, by decide +kernel,
        by decide, rfl, by decide +kernel, by decide +kernel⟩
  · rw [(payToScriptHash_commits .refuseAll (by decide) _).2.2 [0x93, 0x55, 0x87] [[4], [2]]
      (by decide +kernel) (by decide +kernel) (by decide +kernel) (by decide)]
    decide +kernel

end Spend

end SpendCheck
