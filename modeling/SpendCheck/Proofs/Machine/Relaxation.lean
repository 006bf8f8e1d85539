import SpendCheck.Machine.Step
import SpendCheck.Proofs.Policy.Subset

namespace SpendCheck

/-- The first context is the second one with fewer flags. -/
structure Context.Relaxes (loose strict : Context) : Prop where
  flags : loose.flags ⊆ strict.flags
  checker : loose.checker = strict.checker
  script : loose.script = strict.script

namespace Context

variable {loose strict : Context}

/-- A question that the stricter rules admit is asked under the looser ones too. -/
theorem ask_of_relaxes (h : loose.Relaxes strict) {code : Script} {sig pubkey : Bytes} {call : Call}
    (hask : strict.ask code sig pubkey = .ok call) : loose.ask code sig pubkey = .ok call := by
  obtain ⟨hsig, hkey, rfl⟩ := ask_eq_ok_iff.1 hask
  apply ask_eq_ok_iff.2
  rw [h.checker]
  exact ⟨checkSignatureEncoding_of_subset h.flags hsig, checkKeyEncoding_of_subset h.flags hkey, rfl⟩

/-- A scan that meets no faulty encoding under the stricter flags puts the same
questions under the looser ones. It may break off early, so only the pairs that
it reaches need to be in order. -/
theorem scan_of_relaxes (h : loose.Relaxes strict) {code : Script} {sigs keys : List Bytes}
    {success : Bool} (hscan : (strict.scan code sigs keys).verdict = .ok success) :
    loose.scan code sigs keys = strict.scan code sigs keys := by
  induction keys generalizing sigs with
  | nil => cases sigs <;> rfl
  | cons key keys ih =>
    cases sigs with
    | nil => rfl
    | cons sig sigs =>
      cases hask : strict.ask code sig key with
      | error e => simp [scan, hask] at hscan
      | ok call =>
        have hloose := ask_of_relaxes h hask
        simp only [scan, hask] at hscan
        simp only [scan, hask, hloose]
        generalize (if call.valid = true then sigs else sig :: sigs) = pending at hscan ⊢
        by_cases hleft : keys.length < pending.length
        · simp only [if_pos hleft]
        · simp only [if_neg hleft] at hscan ⊢
          rw [ih hscan]

end Context

namespace Machine

variable {loose strict : Context}

theorem scriptCode_of_relaxes (h : loose.Relaxes strict) (m : Machine) :
    m.scriptCode loose = m.scriptCode strict := by
  simp only [scriptCode, h.script]

/-- A check of one signature that succeeds under strict rules has the same answer under looser
ones. -/
theorem checkSig_of_relaxes (h : loose.Relaxes strict) {m m' : Machine}
    (hdone : m.checkSig strict = .done m') : m.checkSig loose = .done m' := by
  unfold checkSig at hdone ⊢
  split at hdone
  · next pubkey sig rest _ =>
    rw [scriptCode_of_relaxes h]
    cases hask : strict.ask ((m.scriptCode strict).deletePush sig) sig pubkey with
    | error e => simp [hask] at hdone
    | ok call =>
      simp only [hask] at hdone
      simp only [Context.ask_of_relaxes h hask, hdone]
  · cases hdone

/-- A scan that succeeds under strict rules has the same answer under looser ones, and its last
argument need not be empty there. -/
theorem settleMultiSig_of_relaxes (h : loose.Relaxes strict) {args : MultiSig} {m m' : Machine}
    (hdone : m.settleMultiSig strict args = .done m') :
    m.settleMultiSig loose args = .done m' := by
  unfold settleMultiSig at hdone ⊢
  simp only [scriptCode_of_relaxes h] at hdone ⊢
  generalize (m.scriptCode strict).deletePushes args.sigs = code at hdone ⊢
  cases hverdict : (strict.scan code args.sigs args.keys).verdict with
  | error e => simp [hverdict] at hdone
  | ok success =>
    simp only [Context.scan_of_relaxes h hverdict, hverdict] at hdone ⊢
    split at hdone
    · cases hdone
    · next hdummy =>
      have hloose : ¬(loose.flags.has .nullDummy && !args.dummy.isEmpty) = true := by
        intro hbad
        obtain ⟨hnull, hfilled⟩ := Bool.and_eq_true_iff.1 hbad
        exact hdummy (Bool.and_eq_true_iff.2 ⟨Flags.has_of_subset h.flags hnull, hfilled⟩)
      rw [if_neg hloose, hdone]

/-- The arguments of a multiple signature check do not depend on the rules. -/
theorem checkMultiSig_of_relaxes (h : loose.Relaxes strict) {m m' : Machine}
    (hdone : m.checkMultiSig strict = .done m') : m.checkMultiSig loose = .done m' := by
  unfold checkMultiSig at hdone ⊢
  split at hdone
  · cases hdone
  · next element below _ =>
    cases hcount : Number.decodeCount maxKeys .pubkeyCount element with
    | error e => simp [hcount] at hdone
    | ok keyCount =>
      simp only [hcount] at hdone ⊢
      obtain ⟨counted, hcounted, hdone⟩ := Outcome.andThen_eq_done_iff.1 hdone
      refine Outcome.andThen_eq_done_iff.2 ⟨counted, hcounted, ?_⟩
      cases hargs : MultiSig.ofStack? keyCount below with
      | error e => simp [hargs] at hdone
      | ok args =>
        simp only [hargs] at hdone
        exact settleMultiSig_of_relaxes h hdone

/-- Only the signature checks look at the flags. -/
theorem execute_of_relaxes (h : loose.Relaxes strict) {m m' : Machine} {operation : Operation}
    (hdone : m.execute strict operation = .done m') : m.execute loose operation = .done m' := by
  cases operation with
  | checkSig => exact checkSig_of_relaxes h hdone
  | checkSigVerify =>
    obtain ⟨checked, hcheck, hverify⟩ := Outcome.andThen_eq_done_iff.1 hdone
    exact Outcome.andThen_eq_done_iff.2 ⟨checked, checkSig_of_relaxes h hcheck, hverify⟩
  | checkMultiSig => exact checkMultiSig_of_relaxes h hdone
  | checkMultiSigVerify =>
    obtain ⟨checked, hcheck, hverify⟩ := Outcome.andThen_eq_done_iff.1 hdone
    exact Outcome.andThen_eq_done_iff.2 ⟨checked, checkMultiSig_of_relaxes h hcheck, hverify⟩
  | _ => exact hdone

/-- An operation that succeeds under strict rules does the same under looser ones. -/
theorem operate_of_relaxes (h : loose.Relaxes strict) {m m' : Machine} {operation : Operation}
    (hdone : m.operate strict operation = .done m') : m.operate loose operation = .done m' := by
  unfold operate at hdone ⊢
  split at hdone
  · exact hdone
  · exact hdone
  · split at hdone
    · next hexecutes =>
      rw [if_pos hexecutes]
      exact execute_of_relaxes h hdone
    · next hskips => rw [if_neg hskips, hdone]

/-- An instruction that goes well under the stricter rules does the same under the looser ones. -/
theorem perform_of_relaxes (h : loose.Relaxes strict) {m m' : Machine} {instruction : Instruction}
    (hdone : m.perform strict instruction = .done m') :
    m.perform loose instruction = .done m' := by
  cases instruction with
  | push opcode payload => exact hdone
  | op opcode =>
    obtain ⟨counted, hcounted, hoperate⟩ := Outcome.andThen_eq_done_iff.1 hdone
    exact Outcome.andThen_eq_done_iff.2 ⟨counted, hcounted, operate_of_relaxes h hoperate⟩

theorem step_of_relaxes (h : loose.Relaxes strict) {m m' : Machine} {instruction : Instruction}
    (hdone : m.step strict instruction = .done m') : m.step loose instruction = .done m' := by
  obtain ⟨performed, hperform, hdepth⟩ := Outcome.andThen_eq_done_iff.1 hdone
  exact Outcome.andThen_eq_done_iff.2 ⟨performed, perform_of_relaxes h hperform, hdepth⟩

/-- Any number of instructions that go well under the stricter rules do the same under the looser
ones. -/
theorem steps_of_relaxes (h : loose.Relaxes strict) {instructions : List Instruction}
    {m m' : Machine} (hdone : m.steps strict instructions = .done m') :
    m.steps loose instructions = .done m' := by
  induction instructions generalizing m with
  | nil => exact hdone
  | cons instruction rest ih =>
    obtain ⟨stepped, hstep, hrest⟩ := Outcome.andThen_eq_done_iff.1 hdone
    exact Outcome.andThen_eq_done_iff.2 ⟨stepped, step_of_relaxes h hstep, ih hrest⟩

/-- A whole evaluation that succeeds under the stricter flags ends in the same
machine under the looser ones: the same stacks, counts and questions to the
checker. -/
theorem run_of_relaxes (h : loose.Relaxes strict) {m m' : Machine}
    (hdone : m.run strict = .done m') : m.run loose = .done m' := by
  obtain ⟨stepped, hsteps, hfinish⟩ := Outcome.andThen_eq_done_iff.1 hdone
  rw [← h.script] at hsteps hfinish
  exact Outcome.andThen_eq_done_iff.2 ⟨stepped, steps_of_relaxes h hsteps, hfinish⟩

end Machine

end SpendCheck
