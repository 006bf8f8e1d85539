import SpendCheck.Proofs.Machine.Reporting
import SpendCheck.Proofs.Spend.Parsing
import SpendCheck.Proofs.Spend.Stages

namespace SpendCheck

namespace Evaluation

variable {P : ScriptError → Prop} {first : Evaluation} {next : Evaluator → Stack → Evaluation}

/-- The evaluation succeeds, or fails with an error of the given kind. -/
def FailsWithin (P : ScriptError → Prop) (evaluation : Evaluation) : Prop :=
  ∀ e, evaluation.result = .error e → P e

theorem FailsWithin.andThen (hfirst : first.FailsWithin P)
    (hnext : (next first.evaluator first.stack).FailsWithin P) : (first.andThen next).FailsWithin P := by
  intro e h
  cases hresult : first.result with
  | error cause =>
    rw [andThen_result_of_error hresult] at h
    exact hfirst e (hresult.trans h)
  | ok _ =>
    rw [andThen_result_of_ok hresult] at h
    exact hnext e h

end Evaluation

namespace Evaluator

variable {evaluator : Evaluator} {unlocking locking : Script}

/-- A verification may end with the error: that of an unlocking script that does more
than push where it must only push, or one that an evaluation may end with. -/
inductive MayReport (evaluator : Evaluator) (unlocking locking : Script) (e : ScriptError) : Prop
  | ofUnlocking (hmust : evaluator.flags.has .sigPushOnly = true ∨
        evaluator.flags.has .p2sh = true ∧ locking.isPayToScriptHash = true)
      (hother : unlocking.isPushOnly = false) (herror : e = .sigPushOnly)
  | ofEvaluation (haccounts : evaluator.flags.AccountsFor e)

/-- A verification reports what its policy accounts for, or that the unlocking script does more
than push. -/
theorem mayReport_of_verify {e : ScriptError}
    (h : (evaluator.verify unlocking locking).result = .error e) :
    evaluator.MayReport unlocking locking e := by
  refine verify_induction (P := Evaluation.FailsWithin (evaluator.MayReport unlocking locking))
    evaluator unlocking locking ?_ ?_ ?_ (fun first next => Evaluation.FailsWithin.andThen) e h
  · rintro hmust hother e ⟨⟩
    refine .ofUnlocking ?_ hother rfl
    simpa only [redeems, Bool.or_eq_true, Bool.and_eq_true] using hmust
  · intro left result stack hleft hends e he
    obtain rfl | rfl := hends e he
    · exact .ofEvaluation (Flags.accountsFor_of_isPlain rfl)
    · exact .ofEvaluation (Flags.accountsFor_of_isPlain rfl)
  · intro left stack script hleft e he
    exact .ofEvaluation (flags_eq_of_reset_eq hleft ▸ accountsFor_of_run he)

end Evaluator

variable {locking : Script} {txBytes : Bytes} {index : Nat} {bits : UInt32}

theorem Evaluator.MayReport.ne_ok {evaluator : Evaluator} {unlocking : Script} {e : ScriptError}
    (h : evaluator.MayReport unlocking locking e) : e ≠ .ok := by
  cases h with
  | ofUnlocking hmust hother herror =>
    rw [herror]
    decide
  | ofEvaluation haccounts => exact haccounts.ne_ok

/-- Where nothing is wrong with the parts of a spend, both scripts are verified. -/
theorem verifySpendDetailed_of_not_fault (locking : Script)
    (h : ∀ e, ¬Spend.Fault txBytes index bits e) :
    ∃ (tx : Transaction) (input : Input), tx.Encodable ∧ tx.encode = txBytes ∧
      tx.inputs[index]? = some input ∧
      verifySpendDetailed locking txBytes index bits =
        (verifyScript ⟨bits⟩ (.ofInput tx index) input.script locking).result.mapError
          SpendFailure.ofScript := by
  obtain ⟨tx, input, htx, hbytes, hinput, hread⟩ := Spend.exists_parse_of_not_fault h
  refine ⟨tx, input, htx, hbytes, hinput, ?_⟩
  rw [verifySpendDetailed_of_parse_eq_ok hread, Spend.verify]

namespace SpendFailure

/-- The failure names the first part of the spend that is wrong, or what the verification
of the input may report. -/
inductive Explains (locking : Script) (txBytes : Bytes) (index : Nat) (bits : UInt32) :
    SpendFailure → Prop
  | ofSetup {e : SpendError} (hfirst : Spend.FirstFault txBytes index bits e) :
      Explains locking txBytes index bits (.ofSetup e)
  | ofScript {tx : Transaction} {input : Input} {e : ScriptError} (htx : tx.Encodable)
      (hbytes : tx.encode = txBytes) (hinput : tx.inputs[index]? = some input)
      (hreport : Evaluator.MayReport { flags := ⟨bits⟩, checker := .ofInput tx index } input.script
        locking e) :
      Explains locking txBytes index bits (.ofScript e)

variable {failure : SpendFailure}

/-- Whatever is reported tells the first thing that is wrong, with the parts or with the
scripts. -/
theorem explains_of_eq_error (h : verifySpendDetailed locking txBytes index bits = .error failure) :
    failure.Explains locking txBytes index bits := by
  obtain ⟨e, hfirst⟩ | hnone := Spend.firstFault_or_not_fault txBytes index bits
  · rw [verifySpendDetailed_of_parse_eq_error hfirst.parse_eq] at h
    cases h
    exact .ofSetup hfirst
  · obtain ⟨tx, input, htx, hbytes, hinput, hanswer⟩ := verifySpendDetailed_of_not_fault locking hnone
    rw [hanswer] at h
    cases hverify : (verifyScript ⟨bits⟩ (.ofInput tx index) input.script locking).result with
    | ok _ =>
      rw [hverify] at h
      cases h
    | error e =>
      rw [hverify] at h
      cases h
      exact .ofScript htx hbytes hinput (Evaluator.mayReport_of_verify hverify)

/-- No error of an evaluation is the value that stands for its absence. -/
theorem Explains.scriptError_eq_ok_iff (h : failure.Explains locking txBytes index bits) :
    failure.scriptError = .ok ↔ failure.error ≠ .script := by
  cases h with
  | ofSetup hfirst =>
    refine iff_of_true rfl ?_
    rintro rfl
    cases hfirst.fault
  | ofScript htx hbytes hinput hreport => exact iff_of_false hreport.ne_ok fun hne => hne rfl

theorem Explains.firstFault {e : SpendError}
    (h : (SpendFailure.ofSetup e).Explains locking txBytes index bits) :
    Spend.FirstFault txBytes index bits e := by
  cases h with
  | ofSetup hfirst => exact hfirst
  | ofScript htx hbytes hinput hreport => exact absurd rfl hreport.ne_ok

end SpendFailure

/-- An error of the set-up is reported exactly if it is the first fault there. -/
theorem verifySpendDetailed_eq_ofSetup_iff {e : SpendError} :
    verifySpendDetailed locking txBytes index bits = .error (.ofSetup e) ↔
      Spend.FirstFault txBytes index bits e := by
  constructor
  · intro h
    exact (SpendFailure.explains_of_eq_error h).firstFault
  · intro h
    exact verifySpendDetailed_of_parse_eq_error h.parse_eq

/-- Errors tell what is wrong. An evaluation ends with an error of a policy only where
its flags ask for that policy, a verification adds only the rule about the unlocking
script where that applies, and neither reports a failure that is none. So a spend that
is refused names either the first of its parts that is wrong or what the verification
of its input reports, and the latter exactly when there is a script error to name. It
is refused without an evaluation, whatever the locking script, for the first of its
parts that is wrong; and where none is wrong, the verification of the script of the
input decides. -/
theorem errors_attributed :
    (∀ (evaluator : Evaluator) stack script e,
      (evaluator.run stack script).result = .error e → evaluator.flags.AccountsFor e) ∧
    (∀ (evaluator : Evaluator) unlocking locking e,
      (evaluator.verify unlocking locking).result = .error e →
      evaluator.MayReport unlocking locking e) ∧
    (∀ locking txBytes index bits failure,
      verifySpendDetailed locking txBytes index bits = .error failure →
      failure.Explains locking txBytes index bits ∧
        (failure.scriptError = .ok ↔ failure.error ≠ .script)) ∧
    (∀ locking txBytes index bits e,
      verifySpendDetailed locking txBytes index bits = .error (.ofSetup e) ↔
        Spend.FirstFault txBytes index bits e) ∧
    (∀ locking txBytes index bits, (∀ e, ¬Spend.Fault txBytes index bits e) →
      ∃ (tx : Transaction) (input : Input), tx.Encodable ∧ tx.encode = txBytes ∧
        tx.inputs[index]? = some input ∧
        verifySpendDetailed locking txBytes index bits =
          (verifyScript ⟨bits⟩ (.ofInput tx index) input.script locking).result.mapError
            SpendFailure.ofScript) := by
  refine ⟨?_, ?_, ?_, ?_, ?_⟩
  · intro evaluator stack script e h
    exact Evaluator.accountsFor_of_run h
  · intro evaluator unlocking locking e h
    exact Evaluator.mayReport_of_verify h
  · intro locking txBytes index bits failure h
    have hexplains := SpendFailure.explains_of_eq_error h
    exact ⟨hexplains, hexplains.scriptError_eq_ok_iff⟩
  · intro locking txBytes index bits e
    exact verifySpendDetailed_eq_ofSetup_iff
  · intro locking txBytes index bits h
    exact verifySpendDetailed_of_not_fault locking h

/-- A spend whose data go on behind the transaction, whose index is out of range and
whose flags are unknown is refused for the first of these. -/
theorem trailing_data_reported_first :
    (Evaluator.run ⟨⟨Flag.lowS.mask⟩, .refuseAll, [false], 7⟩ [[2], [1]] [0xac]).result =
      .error .sigDer ∧
    Flags.AccountsFor ⟨Flag.lowS.mask⟩ .sigDer ∧
    Evaluator.MayReport ⟨⟨Flag.sigPushOnly.mask⟩, .refuseAll, [], 0⟩ [0xac] [] .sigPushOnly ∧
    verifySpendDetailed [] ((Transaction.mk 1 [] [] 0).encode ++ [0]) 3 64 =
      .error (.ofSetup .sizeMismatch) ∧
    ((SpendFailure.ofSetup .sizeMismatch).scriptError = .ok ↔
      (SpendFailure.ofSetup .sizeMismatch).error ≠ .script) ∧
    verifySpendDetailed [] (Transaction.mk 1 [⟨.null, [0x51], 0⟩] [] 0).encode 0 0 = .ok () := by
  obtain ⟨hrun, hverify, hfailure, hsetup, hevaluated⟩ := errors_attributed
  have hreport : (Evaluator.run ⟨⟨Flag.lowS.mask⟩, .refuseAll, [false], 7⟩ [[2], [1]] [0xac]).result =
      .error .sigDer := by
    decide +kernel
  have htx : (Transaction.mk 1 [] [] 0).Encodable := by decide +kernel
  have hbegins : (Transaction.mk 1 [] [] 0).encode <+: (Transaction.mk 1 [] [] 0).encode ++ [0] :=
    List.prefix_append _ _
  have hfirst : Spend.FirstFault ((Transaction.mk 1 [] [] 0).encode ++ [0]) 3 64 .sizeMismatch := by
    refine ⟨.sizeMismatch htx hbegins (by decide +kernel), fun other hlt => ?_⟩
    cases other with
    | deserialize =>
      rintro ⟨hnone⟩
      exact hnone _ htx hbegins
    | _ => exact absurd hlt (by decide)
  have hrefused := (hsetup [] _ 3 64 _).2 hfirst
  refine ⟨hreport, hrun _ _ _ _ hreport, hverify _ _ _ _ (by decide +kernel), hrefused,
    (hfailure _ _ _ _ _ hrefused).2, ?_⟩
  have hwhole : (Transaction.mk 1 [⟨.null, [0x51], 0⟩] [] 0).Encodable := by decide +kernel
  have hnone : ∀ e, ¬Spend.Fault (Transaction.mk 1 [⟨.null, [0x51], 0⟩] [] 0).encode 0 0 e := by
    intro e hfault
    cases hfault with
    | deserialize hnone => exact hnone _ hwhole List.prefix_rfl
    | sizeMismatch hother hbegins hlonger =>
      exact hlonger (congrArg _ (Transaction.eq_of_encode_prefix hother hwhole hbegins))
    | inputIndex hother hbegins hindex =>
      obtain rfl := Transaction.eq_of_encode_prefix hother hwhole hbegins
      exact absurd hindex (by decide)
    | invalidFlags hbits => exact hbits (by decide)
  obtain ⟨tx, input, hencodable, hbytes, hinput, hanswer⟩ := hevaluated [] _ 0 0 hnone
  obtain rfl := Transaction.eq_of_encode_prefix hencodable hwhole (hbytes ▸ List.prefix_rfl)
  cases hinput
  rw [hanswer]
  decide +kernel

end SpendCheck
