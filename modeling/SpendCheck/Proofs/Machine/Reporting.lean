import SpendCheck.Proofs.Machine.Boundary
import SpendCheck.Proofs.Machine.Growth
import SpendCheck.Proofs.Policy.Attribution

namespace SpendCheck

namespace Outcome

variable {σ τ : Type} {P Q : ScriptError → Prop} {o : Outcome σ}

/-- The computation succeeds, or fails with an error of the given kind. -/
def FailsWithin (P : ScriptError → Prop) (o : Outcome σ) : Prop :=
  ∀ e, o.result = .error e → P e

/-- The computation fails with no error of a policy. -/
abbrev FailsPlainly (o : Outcome σ) : Prop :=
  o.FailsWithin (·.isPlain = true)

theorem failsWithin_done (s : σ) : (done s).FailsWithin P := by
  intro e h
  cases h

theorem failsWithin_failed {e : ScriptError} (h : P e) (s : σ) : (failed e s).FailsWithin P := by
  intro other hother
  cases hother
  exact h

theorem failsPlainly_failed {e : ScriptError} (h : e.isPlain = true) (s : σ) :
    (failed e s).FailsPlainly :=
  failsWithin_failed h s

theorem FailsWithin.mono (h : o.FailsWithin P) (himp : ∀ e, P e → Q e) : o.FailsWithin Q :=
  fun e herror => himp e (h e herror)

theorem FailsWithin.andThen {next : σ → Outcome σ} (h : o.FailsWithin P)
    (hnext : ∀ s, (next s).FailsWithin P) : (o.andThen next).FailsWithin P := by
  cases o with
  | done s => exact hnext s
  | failed e s => exact h

theorem FailsWithin.map (h : o.FailsWithin P) (f : σ → τ) : (o.map f).FailsWithin P := by
  cases o with
  | done s => exact failsWithin_done (f s)
  | failed e s => exact h

end Outcome

open Outcome

theorem Number.isPlain_of_decode {size : Nat} {bytes : Bytes} {e : ScriptError}
    (h : Number.decode size bytes = .error e) : e.isPlain = true := by
  unfold decode at h
  split at h
  · cases h
    rfl
  · cases h

/-- A count fails for the width of its element or for being outside of its range. -/
theorem Number.isPlain_of_decodeCount {limit : Nat} {outside e : ScriptError} {element : Bytes}
    (houtside : outside.isPlain = true) (h : Number.decodeCount limit outside element = .error e) :
    e.isPlain = true := by
  unfold decodeCount at h
  split at h
  · next hdecode =>
    cases h
    exact isPlain_of_decode hdecode
  · split at h
    · cases h
      exact houtside
    · cases h

/-- To find the arguments fails for the number of signatures or for want of elements. -/
theorem MultiSig.isPlain_of_ofStack? {keyCount : Nat} {stack : Stack} {e : ScriptError}
    (h : MultiSig.ofStack? keyCount stack = .error e) : e.isPlain = true := by
  unfold ofStack? at h
  split at h
  · cases h
    rfl
  · split at h
    · next hcount =>
      cases h
      exact Number.isPlain_of_decodeCount rfl hcount
    · split at h <;> cases h
      rfl

namespace Stack

theorem failsPlainly_push (element : Bytes) (stack : Stack) : (push element stack).FailsPlainly := by
  unfold push
  split
  · exact failsPlainly_failed rfl stack
  · exact failsWithin_done _

theorem failsPlainly_verify {error : ScriptError} (h : error.isPlain = true) (stack : Stack) :
    (verify error stack).FailsPlainly := by
  unfold verify
  split
  · exact failsPlainly_failed rfl []
  · split
    · exact failsWithin_done _
    · exact failsPlainly_failed h _

theorem failsPlainly_equal (stack : Stack) : stack.equal.FailsPlainly := by
  unfold equal
  split
  · exact failsPlainly_push _ _
  · exact failsPlainly_failed rfl _

theorem failsPlainly_within (stack : Stack) : stack.within.FailsPlainly := by
  unfold within
  split
  · split
    · next hvalue => exact failsPlainly_failed (Number.isPlain_of_decode hvalue) _
    · next hlower => exact failsPlainly_failed (Number.isPlain_of_decode hlower) _
    · next hupper => exact failsPlainly_failed (Number.isPlain_of_decode hupper) _
    · exact failsPlainly_push _ _
  · exact failsPlainly_failed rfl _

/-- A selection fails for its index, or where what is done with the element fails. -/
theorem failsPlainly_select {next : Stack → Nat → Bytes → Outcome Stack}
    (hnext : ∀ below depth element, (next below depth element).FailsPlainly) (stack : Stack) :
    (stack.select next).FailsPlainly := by
  unfold select
  split
  · split
    · next hindex => exact failsPlainly_failed (Number.isPlain_of_decode hindex) _
    · split
      · exact failsPlainly_failed rfl _
      · split
        · exact failsPlainly_failed rfl _
        · exact hnext _ _ _
  · exact failsPlainly_failed rfl _

end Stack

open Stack

theorem UnaryOperation.failsPlainly_apply (kind : UnaryOperation) (stack : Stack) :
    (kind.apply stack).FailsPlainly := by
  unfold apply
  split
  · split
    · next hoperand => exact failsPlainly_failed (Number.isPlain_of_decode hoperand) _
    · exact failsPlainly_push _ _
  · exact failsPlainly_failed rfl _

theorem BinaryOperation.failsPlainly_apply (kind : BinaryOperation) (stack : Stack) :
    (kind.apply stack).FailsPlainly := by
  unfold apply
  split
  · split
    · next hlower => exact failsPlainly_failed (Number.isPlain_of_decode hlower) _
    · next hupper => exact failsPlainly_failed (Number.isPlain_of_decode hupper) _
    · exact failsPlainly_push _ _
  · exact failsPlainly_failed rfl _

theorem HashOperation.failsPlainly_apply (kind : HashOperation) (stack : Stack) :
    (kind.apply stack).FailsPlainly := by
  unfold apply
  split
  · exact failsPlainly_push _ _
  · exact failsPlainly_failed rfl _

theorem StackOperation.failsPlainly_apply (kind : StackOperation) (stack : Stack) :
    (kind.apply stack).FailsPlainly := by
  fun_cases StackOperation.apply kind stack with
  -- Elements are dropped or moved.
  | case1 | case5 | case6 | case8 | case10 | case12 | case16 | case17 | case18 =>
    exact failsWithin_done _
  -- Elements are pushed.
  | case7 | case9 | case11 | case13 | case19 => exact failsPlainly_push _ _
  | case2 | case4 => exact (failsPlainly_push _ _).andThen (failsPlainly_push _)
  | case3 =>
    exact ((failsPlainly_push _ _).andThen (failsPlainly_push _)).andThen (failsPlainly_push _)
  | case14 | case15 => exact failsPlainly_select (fun _ _ _ => failsPlainly_push _ _) _
  -- There are too few elements.
  | case20 => exact failsPlainly_failed rfl _

namespace Context

variable {context : Context} {code : Script} {e : ScriptError}

/-- A question is not put where one of its encodings is faulty. -/
theorem error_of_ask {sig pubkey : Bytes} (h : context.ask code sig pubkey = .error e) :
    checkSignatureEncoding context.flags sig = .error e ∨
      checkKeyEncoding context.flags pubkey = .error e := by
  unfold ask at h
  split at h
  · next hsig =>
    cases h
    exact .inl hsig
  · split at h
    · next hkey =>
      cases h
      exact .inr hkey
    · cases h

theorem accountsFor_of_ask {sig pubkey : Bytes} (h : context.ask code sig pubkey = .error e) :
    context.flags.AccountsFor e :=
  (error_of_ask h).elim Flags.accountsFor_of_checkSignatureEncoding
    Flags.accountsFor_of_checkKeyEncoding

/-- A scan ends with the error of a question. -/
theorem exists_ask_of_scan {sigs keys : List Bytes}
    (h : (context.scan code sigs keys).verdict = .error e) :
    ∃ sig pubkey, context.ask code sig pubkey = .error e := by
  induction keys generalizing sigs with
  | nil => cases sigs <;> cases h
  | cons key keys ih =>
    cases sigs with
    | nil => cases h
    | cons sig sigs =>
      cases hask : context.ask code sig key with
      | error cause =>
        simp only [scan, hask, Except.error.injEq] at h
        exact ⟨sig, key, h ▸ hask⟩
      | ok call =>
        simp only [scan, hask] at h
        generalize (if call.valid = true then sigs else sig :: sigs) = pending at h
        split at h
        · cases h
        · exact ih h

theorem accountsFor_of_scan {sigs keys : List Bytes}
    (h : (context.scan code sigs keys).verdict = .error e) : context.flags.AccountsFor e := by
  obtain ⟨sig, pubkey, hask⟩ := exists_ask_of_scan h
  exact accountsFor_of_ask hask

end Context

namespace Machine

variable (context : Context) (m : Machine)

theorem failsPlainly_onStack {operation : Stack → Outcome Stack}
    (h : ∀ stack, (operation stack).FailsPlainly) : (m.onStack operation).FailsPlainly :=
  (h m.stack).map _

theorem failsPlainly_countOperations (count : Nat) : (m.countOperations count).FailsPlainly := by
  simp only [countOperations]
  split
  · exact failsPlainly_failed rfl _
  · exact failsWithin_done _

theorem failsPlainly_checkDepth : m.checkDepth.FailsPlainly := by
  unfold checkDepth
  split
  · exact failsPlainly_failed rfl m
  · exact failsWithin_done m

theorem failsPlainly_toAltStack : m.toAltStack.FailsPlainly := by
  unfold toAltStack
  split
  · exact failsPlainly_failed rfl m
  · exact failsWithin_done _

theorem failsPlainly_fromAltStack : m.fromAltStack.FailsPlainly := by
  unfold fromAltStack
  split
  · exact failsPlainly_failed rfl m
  · exact failsPlainly_onStack _ (failsPlainly_push _)

theorem failsPlainly_openConditional (expected : Bool) : (m.openConditional expected).FailsPlainly := by
  unfold openConditional
  split
  · split
    · exact failsPlainly_failed rfl m
    · exact failsWithin_done _
  · exact failsWithin_done _

theorem failsPlainly_branching (kind : Branching) : (kind.apply m).FailsPlainly := by
  cases kind with
  | ifTrue => exact failsPlainly_openConditional m true
  | ifFalse => exact failsPlainly_openConditional m false
  | otherwise =>
    simp only [Branching.apply]
    split
    · exact failsPlainly_failed rfl m
    · exact failsWithin_done _
  | endIf =>
    simp only [Branching.apply]
    split
    · exact failsPlainly_failed rfl m
    · exact failsWithin_done _

theorem failsPlainly_finish (tail : Bytes) : (m.finish tail).FailsPlainly := by
  unfold finish
  split
  · exact failsPlainly_failed rfl m
  · split
    · exact failsPlainly_failed rfl m
    · exact failsWithin_done m

/-! Signature checks, and only these, fail for a policy. -/

theorem failsWithin_of_plainly {o : Outcome Machine} (flags : Flags) (h : o.FailsPlainly) :
    o.FailsWithin flags.AccountsFor :=
  h.mono fun _ => Flags.accountsFor_of_isPlain

/-- A signature check fails for a plain reason or for one that a flag accounts for. -/
theorem failsWithin_checkSig : (m.checkSig context).FailsWithin context.flags.AccountsFor := by
  unfold checkSig
  split
  · split
    · next hask => exact failsWithin_failed (Context.accountsFor_of_ask hask) m
    · exact failsWithin_done _
  · exact failsWithin_failed (Flags.accountsFor_of_isPlain rfl) m

/-- A scan fails for an encoding, and after it there is only the last argument to fail for. -/
theorem failsWithin_settleMultiSig (args : MultiSig) :
    (m.settleMultiSig context args).FailsWithin context.flags.AccountsFor := by
  simp only [settleMultiSig]
  split
  · next hscan => exact failsWithin_failed (Context.accountsFor_of_scan hscan) _
  · split
    · next hdummy =>
      have hflag : context.flags.has .nullDummy = true := (Bool.and_eq_true_iff.1 hdummy).1
      exact failsWithin_failed (Flags.accountsFor_sigNullDummy hflag) _
    · exact failsWithin_done _

/-- A multiple signature check fails for its counts and arguments, or for a rule that the flags
account for. -/
theorem failsWithin_checkMultiSig :
    (m.checkMultiSig context).FailsWithin context.flags.AccountsFor := by
  unfold checkMultiSig
  split
  · exact failsWithin_failed (Flags.accountsFor_of_isPlain rfl) m
  · split
    · next hcount =>
      have hplain := Number.isPlain_of_decodeCount rfl hcount
      exact failsWithin_failed (Flags.accountsFor_of_isPlain hplain) m
    · refine (failsWithin_of_plainly _ (failsPlainly_countOperations m _)).andThen fun counted => ?_
      split
      · next hargs =>
        have hplain := MultiSig.isPlain_of_ofStack? hargs
        exact failsWithin_failed (Flags.accountsFor_of_isPlain hplain) counted
      · exact failsWithin_settleMultiSig context counted _

/-- Only the operations that check signatures fail for a rule of the policy, and the flags
account for it. -/
theorem failsWithin_execute (operation : Operation) :
    (m.execute context operation).FailsWithin context.flags.AccountsFor := by
  have hplainly : ∀ {operation : Stack → Outcome Stack}, (∀ stack, (operation stack).FailsPlainly) →
      ∀ m : Machine, (m.onStack operation).FailsWithin context.flags.AccountsFor := by
    intro operation h m
    exact failsWithin_of_plainly _ (failsPlainly_onStack m h)
  cases operation with
  | nop | codeSeparator => exact failsWithin_done _
  | fail | disabled | undefined => exact failsWithin_failed (Flags.accountsFor_of_isPlain rfl) m
  | number value => exact hplainly (failsPlainly_push _) m
  | branching kind => exact failsWithin_of_plainly _ (failsPlainly_branching m kind)
  | verify => exact hplainly (failsPlainly_verify rfl) m
  | toAltStack => exact failsWithin_of_plainly _ (failsPlainly_toAltStack m)
  | fromAltStack => exact failsWithin_of_plainly _ (failsPlainly_fromAltStack m)
  | stack kind => exact hplainly kind.failsPlainly_apply m
  | equal => exact hplainly failsPlainly_equal m
  | equalVerify =>
    exact hplainly (fun stack => (failsPlainly_equal stack).andThen (failsPlainly_verify rfl)) m
  | unary kind => exact hplainly kind.failsPlainly_apply m
  | binary kind => exact hplainly kind.failsPlainly_apply m
  | numEqualVerify =>
    exact hplainly (fun stack => (BinaryOperation.numEqual.failsPlainly_apply stack).andThen
      (failsPlainly_verify rfl)) m
  | within => exact hplainly failsPlainly_within m
  | hash kind => exact hplainly kind.failsPlainly_apply m
  | checkSig => exact failsWithin_checkSig context m
  | checkSigVerify => exact (failsWithin_checkSig context m).andThen (hplainly (failsPlainly_verify rfl))
  | checkMultiSig => exact failsWithin_checkMultiSig context m
  | checkMultiSigVerify =>
    exact (failsWithin_checkMultiSig context m).andThen (hplainly (failsPlainly_verify rfl))

/-- Measuring and counting are not rules of the policy. -/
theorem failsWithin_perform (instruction : Instruction) :
    (m.perform context instruction).FailsWithin context.flags.AccountsFor := by
  cases instruction with
  | push opcode payload =>
    simp only [perform, pushPayload]
    split
    · exact failsWithin_failed (Flags.accountsFor_of_isPlain rfl) m
    · split
      · exact failsWithin_of_plainly _ (failsPlainly_onStack m (failsPlainly_push payload))
      · exact failsWithin_done m
  | op opcode =>
    have hcount : (if opcode.isCounted = true then m.countOperations 1 else .done m).FailsWithin
        context.flags.AccountsFor := by
      split
      · exact failsWithin_of_plainly _ (failsPlainly_countOperations m 1)
      · exact failsWithin_done m
    refine hcount.andThen fun counted => ?_
    unfold operate
    split
    · exact failsWithin_failed (Flags.accountsFor_of_isPlain rfl) counted
    · exact failsWithin_of_plainly _ (failsPlainly_branching counted _)
    · split
      · exact failsWithin_execute context counted _
      · exact failsWithin_done counted

theorem failsWithin_step (instruction : Instruction) :
    (m.step context instruction).FailsWithin context.flags.AccountsFor :=
  (failsWithin_perform context _ instruction).andThen fun performed =>
    failsWithin_of_plainly _ (failsPlainly_checkDepth performed)

theorem failsWithin_steps (instructions : List Instruction) :
    (m.steps context instructions).FailsWithin context.flags.AccountsFor := by
  induction instructions generalizing m with
  | nil => exact failsWithin_done m
  | cons instruction rest ih => exact (failsWithin_step context m instruction).andThen ih

/-- Whatever the script, an evaluation fails only with errors that its flags account for. -/
theorem failsWithin_run : (m.run context).FailsWithin context.flags.AccountsFor :=
  (failsWithin_steps context m _).andThen fun left =>
    failsWithin_of_plainly _ (failsPlainly_finish left _)

end Machine

namespace Evaluator

/-- Whatever error a run ends with, the flags account for it. -/
theorem accountsFor_of_run {evaluator : Evaluator} {stack : Stack} {script : Script} {e : ScriptError}
    (h : (evaluator.run stack script).result = .error e) : evaluator.flags.AccountsFor e := by
  by_cases hsize : maxScriptSize < script.length
  · rw [run_of_length_gt hsize] at h
    cases h
    exact Flags.accountsFor_of_isPlain rfl
  · rw [run_of_length_le evaluator stack (Nat.not_lt.1 hsize) rfl] at h
    exact Machine.failsWithin_run (evaluator.context script) _ e h

end Evaluator

end SpendCheck
