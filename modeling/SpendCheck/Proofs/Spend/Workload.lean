import SpendCheck.Proofs.Machine.Charging
import SpendCheck.Proofs.Machine.ScriptCode
import SpendCheck.Proofs.Spend.PayToScriptHash
import SpendCheck.Proofs.Spend.SignaturePolicy

namespace SpendCheck

namespace Script

/-- No instruction of the script checks signatures. -/
def ChecksNothing (script : Script) : Prop :=
  ∀ opcode, .op opcode ∈ script.instructions → (Operation.ofOpcode opcode).checksSignatures = false

theorem checksNothing_of_isPushOnly {script : Script} (h : script.isPushOnly = true) :
    script.ChecksNothing := by
  intro opcode hmem
  have hpush : opcode ≤ Opcode.sixteen := opcode_le_of_isPushOnly h hmem
  by_contra hchecks
  have hcounted : Opcode.sixteen < opcode := by
    simpa [Opcode.isCounted] using Operation.isCounted_of_checksSignatures (by simpa using hchecks)
  exact absurd hpush (UInt8.not_le.2 hcounted)

theorem checksNothing_payToHash {digest : Bytes} (h : digest.length = 20) :
    (payToHash digest).ChecksNothing := by
  intro opcode hmem
  rw [instructions, decode_payToHash h] at hmem
  obtain rfl | rfl : opcode = Opcode.hash160 ∨ opcode = Opcode.equal := by simpa using hmem
  · decide
  · decide

end Script

theorem Evaluation.length_andThen_calls_le {first : Evaluation} {next : Evaluator → Stack → Evaluation}
    {count more : Nat} (hfirst : first.calls.length ≤ count)
    (hnext : (next first.evaluator first.stack).calls.length ≤ more) :
    (first.andThen next).calls.length ≤ count + more := by
  cases hresult : first.result with
  | error e =>
    rw [andThen_of_error hresult]
    omega
  | ok _ =>
    rw [andThen_calls_of_ok hresult, List.length_append]
    omega

namespace Evaluator

/-- An evaluation without a check of signatures puts no questions, whether or not it succeeds. -/
theorem run_calls_of_checksNothing (evaluator : Evaluator) (stack : Stack) {script : Script}
    (h : script.ChecksNothing) : (evaluator.run stack script).calls = [] := by
  cases hcalls : (evaluator.run stack script).calls with
  | nil => rfl
  | cons call calls =>
    have hfirst : [] ++ [call] <+: (evaluator.run stack script).calls := by
      rw [hcalls]
      exact ⟨calls, rfl⟩
    obtain ⟨before, opcode, after, m, earlier, new, hputs, -, hprefix⟩ :=
      exists_puts_of_prefix_calls hfirst
    have hne : new ≠ [] := by
      rintro rfl
      simp at hprefix
    obtain ⟨sigs, hchecks, -⟩ := (hputs.shows hne).2 hne
    have hmem : .op opcode ∈ script.instructions := by
      rw [hputs.passes.instructions_eq]
      exact List.mem_append_right before List.mem_cons_self
    have hnone := h opcode hmem
    rw [hchecks.checksSignatures] at hnone
    cases hnone

/-- The redeem script has an operation budget of its own, so it asks no more than one run. -/
theorem length_redeem_calls_le (evaluator : Evaluator) (stack : Stack) :
    (evaluator.redeem stack).calls.length ≤ maxOperations := by
  cases stack with
  | nil => exact Nat.zero_le _
  | cons script below =>
    rw [redeem, andThen_requireTrue_calls]
    exact (length_run_calls_le evaluator below script).2

/-- A verification asks what its evaluations ask. -/
theorem length_verify_calls_le {evaluator : Evaluator} {unlocking locking : Script}
    {first second third : Nat}
    (hunlocking : evaluator.Permits unlocking locking →
      (evaluator.run [] unlocking).calls.length ≤ first)
    (hlocking : ∀ (other : Evaluator) stack, (other.run stack locking).calls.length ≤ second)
    (hredeem : evaluator.redeems locking = true → maxOperations ≤ third) :
    (evaluator.verify unlocking locking).calls.length ≤ first + (second + third) := by
  by_cases hpermits : evaluator.Permits unlocking locking
  · rw [verify_of_permits hpermits]
    apply Evaluation.length_andThen_calls_le (hunlocking hpermits)
    apply Evaluation.length_andThen_calls_le
    · rw [andThen_requireTrue_calls]
      exact hlocking _ _
    · split
      · next hredeems => exact (length_redeem_calls_le _ _).trans (hredeem hredeems)
      · exact Nat.zero_le third
  · have hrefused : ((evaluator.flags.has .sigPushOnly || evaluator.redeems locking) &&
        !unlocking.isPushOnly) = true := by
      simpa [Permits] using hpermits
    unfold verify
    rw [if_pos hrefused]
    exact Nat.zero_le _

/-- Where the script pushed last is evaluated as well, only this script can ask: the
unlocking script only pushes, and the locking script only compares a digest. -/
theorem length_verify_calls_le_of_redeems (evaluator : Evaluator) (unlocking : Script)
    {locking : Script} (h : evaluator.redeems locking = true) :
    (evaluator.verify unlocking locking).calls.length ≤ maxOperations := by
  obtain ⟨digest, hdigest, rfl⟩ :=
    Script.exists_eq_payToHash_of_isPayToScriptHash (Bool.and_eq_true_iff.1 h).2
  have hunlocking : evaluator.Permits unlocking (Script.payToHash digest) →
      (evaluator.run [] unlocking).calls.length ≤ 0 := by
    intro hpermits
    have hsilent := Script.checksNothing_of_isPushOnly (hpermits (.inr h))
    rw [run_calls_of_checksNothing evaluator [] hsilent]
    exact Nat.le_refl 0
  have hlocking : ∀ (other : Evaluator) stack,
      (other.run stack (Script.payToHash digest)).calls.length ≤ 0 := by
    intro other stack
    rw [run_calls_of_checksNothing other stack (Script.checksNothing_payToHash hdigest)]
    exact Nat.le_refl 0
  have hle := length_verify_calls_le hunlocking hlocking fun _ => Nat.le_refl maxOperations
  omega

/-- Signature work is bounded. An evaluation asks the checker at most 201 times,
whether it succeeds or fails, and at every place that it passes, and where it ends,
it has asked no more often than it has counted operations. A verification asks at
most 402 times, and at most 201 times where the script pushed last is evaluated as
well. The evaluator may hold whatever earlier evaluations left in it. -/
theorem checker_calls_bounded (evaluator : Evaluator) :
    (∀ stack script, (evaluator.run stack script).calls.length ≤ 201 ∧
      (evaluator.run stack script).calls.length ≤ (evaluator.run stack script).evaluator.opCount) ∧
    (∀ stack script before after m, evaluator.Passes stack script before after m →
      m.calls.length ≤ m.opCount) ∧
    (∀ unlocking locking, (evaluator.verify unlocking locking).calls.length ≤ 402) ∧
    (∀ unlocking locking, evaluator.redeems locking = true →
      (evaluator.verify unlocking locking).calls.length ≤ 201) := by
  refine ⟨?_, ?_, ?_, length_verify_calls_le_of_redeems evaluator⟩
  · intro stack script
    obtain ⟨hcounted, hmax⟩ := length_run_calls_le evaluator stack script
    exact ⟨hmax, hcounted⟩
  · intro stack script before after m hpasses
    exact hpasses.charged.calls_le_opCount
  · intro unlocking locking
    by_cases hredeems : evaluator.redeems locking = true
    · have hle := length_verify_calls_le_of_redeems evaluator unlocking hredeems
      exact hle.trans (by decide)
    · have hle : (evaluator.verify unlocking locking).calls.length ≤
          maxOperations + (maxOperations + 0) :=
        length_verify_calls_le (fun _ => (length_run_calls_le evaluator [] unlocking).2)
          (fun other stack => (length_run_calls_le other stack locking).2)
          (fun h => absurd h hredeems)
      exact hle

/-- One signature for the lower of two keys, committed to by a script hash: the
checker refuses it for the upper key first. -/
theorem second_key_found_in_two_calls :
    Evaluator.redeems ⟨⟨Flag.p2sh.mask⟩, .ofPairs [([7], [5])], [false], 7⟩
      (Script.toPayToScriptHash [0x51, 0x01, 0x05, 0x01, 0x06, 0x52, 0xae]) = true ∧
    (Evaluator.verify ⟨⟨Flag.p2sh.mask⟩, .ofPairs [([7], [5])], [false], 7⟩
      (Script.build [] [.value [], .value [7], .value [0x51, 0x01, 0x05, 0x01, 0x06, 0x52, 0xae]])
      (Script.toPayToScriptHash [0x51, 0x01, 0x05, 0x01, 0x06, 0x52, 0xae])).calls.length = 2 ∧
    (Evaluator.verify ⟨⟨Flag.p2sh.mask⟩, .ofPairs [([7], [5])], [false], 7⟩
      (Script.build [] [.value [], .value [7], .value [0x51, 0x01, 0x05, 0x01, 0x06, 0x52, 0xae]])
      (Script.toPayToScriptHash [0x51, 0x01, 0x05, 0x01, 0x06, 0x52, 0xae])).calls.length ≤ 201 := by
  obtain ⟨-, -, -, hcommitted⟩ :=
    checker_calls_bounded ⟨⟨Flag.p2sh.mask⟩, .ofPairs [([7], [5])], [false], 7⟩
  have hredeems : Evaluator.redeems ⟨⟨Flag.p2sh.mask⟩, .ofPairs [([7], [5])], [false], 7⟩
      (Script.toPayToScriptHash [0x51, 0x01, 0x05, 0x01, 0x06, 0x52, 0xae]) = true := by
    decide +kernel
  exact ⟨hredeems, by decide +kernel, hcommitted _ _ hredeems⟩

end Evaluator

end SpendCheck
