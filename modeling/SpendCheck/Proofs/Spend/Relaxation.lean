import Mathlib.Tactic.Common
import SpendCheck.Proofs.Machine.Relaxation
import SpendCheck.Proofs.Spend.Stages

namespace SpendCheck

namespace Evaluator

variable {loose strict : Evaluator} {stack : Stack} {script : Script}

/-- An evaluation that succeeds under some flags leaves the same stack and puts
the same questions, with the same answers, under fewer flags. -/
theorem run_of_flags_subset (hflags : loose.flags ⊆ strict.flags)
    (hchecker : loose.checker = strict.checker) (hok : (strict.run stack script).result = .ok ()) :
    (loose.run stack script).result = .ok () ∧
      (loose.run stack script).stack = (strict.run stack script).stack ∧
      (loose.run stack script).calls = (strict.run stack script).calls := by
  unfold run at hok ⊢
  by_cases hsize : maxScriptSize < script.length
  · simp [if_pos hsize, leave] at hok
  · simp only [if_neg hsize] at hok ⊢
    have hrelaxes : Context.Relaxes ⟨loose.flags, loose.checker, script⟩
        ⟨strict.flags, strict.checker, script⟩ := ⟨hflags, hchecker, rfl⟩
    have hstart : loose.reset.start stack = strict.reset.start stack := rfl
    have hdone := Machine.run_of_relaxes hrelaxes (Outcome.result_eq_ok_iff.1 hok)
    rw [hstart, hdone]
    exact ⟨rfl, rfl, rfl⟩

theorem evalScript_of_subset {F G : Flags} (h : F ⊆ G) {checker : Checker} {stack : Stack}
    {script : Script} (hok : (evalScript G checker stack script).result = .ok ()) :
    (evalScript F checker stack script).result = .ok () ∧
      (evalScript F checker stack script).stack = (evalScript G checker stack script).stack ∧
      (evalScript F checker stack script).calls = (evalScript G checker stack script).calls :=
  run_of_flags_subset h rfl hok

theorem verdict_of_subset {F G : Flags} (h : F ⊆ G) {checker : Checker} {stack : Stack}
    {script : Script} (hok : (evalScript G checker stack script).verdict = .ok ()) :
    (evalScript F checker stack script).verdict = .ok () := by
  obtain ⟨hresult, htrue⟩ := Evaluation.verdict_eq_ok_iff.1 hok
  obtain ⟨hresultF, hstack, _⟩ := evalScript_of_subset h hresult
  exact Evaluation.verdict_eq_ok_iff.2 ⟨hresultF, by rw [hstack, htrue]⟩

theorem redeems_of_flags_subset (hflags : loose.flags ⊆ strict.flags) {locking : Script}
    (hredeems : loose.redeems locking = true) : strict.redeems locking = true := by
  obtain ⟨hp2sh, hform⟩ := Bool.and_eq_true_iff.1 hredeems
  exact Bool.and_eq_true_iff.2 ⟨Flags.has_of_subset hflags hp2sh, hform⟩

/-- Flags only restrict. A verification that succeeds under some flags succeeds
under fewer, and so does the evaluation of any script on any stack, which also
leaves the same stack and puts the same questions to the checker in the same
order. The evaluators may hold whatever earlier evaluations left in them. -/
theorem accepted_under_fewer_flags (hflags : loose.flags ⊆ strict.flags)
    (hchecker : loose.checker = strict.checker) :
    (∀ unlocking locking, (strict.verify unlocking locking).result = .ok () →
      (loose.verify unlocking locking).result = .ok ()) ∧
    (∀ stack script, (strict.run stack script).result = .ok () →
      (loose.run stack script).result = .ok () ∧
        (loose.run stack script).stack = (strict.run stack script).stack ∧
        (loose.run stack script).calls = (strict.run stack script).calls) := by
  constructor
  · intro unlocking locking hok
    obtain ⟨hpushes, unlocked, rfl, hunlock, hlock, hredeem⟩ := (verify_result_eq_ok_iff strict).1 hok
    rw [← hchecker] at hunlock hlock hredeem
    obtain ⟨hunlockF, hunlocked, _⟩ := evalScript_of_subset hflags hunlock
    rw [← hunlocked] at hlock hredeem
    refine (verify_result_eq_ok_iff loose).2 ⟨?_, _, rfl, hunlockF, ?_, ?_⟩
    · rintro (honly | hredeems)
      · exact hpushes (.inl (Flags.has_of_subset hflags honly))
      · exact hpushes (.inr (redeems_of_flags_subset hflags hredeems))
    · exact verdict_of_subset hflags hlock
    · intro hredeems
      obtain ⟨script, below, hstack, hrun⟩ := hredeem (redeems_of_flags_subset hflags hredeems)
      exact ⟨script, below, hstack, verdict_of_subset hflags hrun⟩
  · intro stack script hok
    exact run_of_flags_subset hflags hchecker hok

/-- A script hash that commits to a check of one signature for one key, spent
under all flags by a strict signature, and under no flags by an evaluator that
was used before. -/
theorem scriptHash_spend_accepted_without_flags :
    (verifyScript .standard .acceptAll
      (Script.build [] [.value [], .value [0x30, 6, 2, 1, 1, 2, 1, 1, 1],
        .value ([0x51, 0x21, 0x02] ++ List.replicate 32 1 ++ [0x51, 0xae])])
      (Script.toPayToScriptHash ([0x51, 0x21, 0x02] ++ List.replicate 32 1 ++ [0x51, 0xae]))).result =
        .ok () ∧
    (Evaluator.verify ⟨.none, .acceptAll, [false], 7⟩
      (Script.build [] [.value [], .value [0x30, 6, 2, 1, 1, 2, 1, 1, 1],
        .value ([0x51, 0x21, 0x02] ++ List.replicate 32 1 ++ [0x51, 0xae])])
      (Script.toPayToScriptHash ([0x51, 0x21, 0x02] ++ List.replicate 32 1 ++ [0x51, 0xae]))).result =
        .ok () ∧
    (Evaluator.run ⟨.none, .acceptAll, [false], 7⟩ [[0x30, 6, 2, 1, 1, 2, 1, 1, 1], []]
      ([0x51, 0x21, 0x02] ++ List.replicate 32 1 ++ [0x51, 0xae])).calls =
        [⟨[0x30, 6, 2, 1, 1, 2, 1, 1, 1], 0x02 :: List.replicate 32 1,
          [0x51, 0x21, 0x02] ++ List.replicate 32 1 ++ [0x51, 0xae], true⟩] := by
  have hrestricts := @accepted_under_fewer_flags ⟨.none, .acceptAll, [false], 7⟩
    ⟨.standard, .acceptAll, [], 0⟩ (by decide) rfl
  have haccepted : (verifyScript .standard .acceptAll
      (Script.build [] [.value [], .value [0x30, 6, 2, 1, 1, 2, 1, 1, 1],
        .value ([0x51, 0x21, 0x02] ++ List.replicate 32 1 ++ [0x51, 0xae])])
      (Script.toPayToScriptHash
        ([0x51, 0x21, 0x02] ++ List.replicate 32 1 ++ [0x51, 0xae]))).result = .ok () := by
    decide +kernel
  refine ⟨haccepted, hrestricts.1 _ _ haccepted, ?_⟩
  rw [(hrestricts.2 _ _ (by decide +kernel)).2.2]
  decide +kernel

end Evaluator

end SpendCheck
