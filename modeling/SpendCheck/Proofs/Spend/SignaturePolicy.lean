import Mathlib.Tactic.Common
import SpendCheck.Proofs.Machine.Asking
import SpendCheck.Proofs.Machine.Boundary
import SpendCheck.Proofs.Spend.Stages

namespace SpendCheck

namespace Evaluation

variable {first : Evaluation} {next : Evaluator → Stack → Evaluation}

theorem andThen_of_error {e : ScriptError} (h : first.result = .error e) :
    first.andThen next = first := by
  simp only [andThen, h]

theorem andThen_calls_of_ok (h : first.result = .ok ()) :
    (first.andThen next).calls = first.calls ++ (next first.evaluator first.stack).calls := by
  simp only [andThen, h]

/-- The questions were all about pairs that the flags admit. -/
def AskedWithin (flags : Flags) (evaluation : Evaluation) : Prop :=
  ∀ call ∈ evaluation.calls, flags.Admits call.sig call.pubkey

theorem AskedWithin.andThen {flags : Flags} (hfirst : first.AskedWithin flags)
    (hnext : (next first.evaluator first.stack).AskedWithin flags) :
    (first.andThen next).AskedWithin flags := by
  cases hresult : first.result with
  | error e =>
    rw [andThen_of_error hresult]
    exact hfirst
  | ok _ =>
    intro call hcall
    rw [andThen_calls_of_ok hresult] at hcall
    obtain hearlier | hlater := List.mem_append.1 hcall
    · exact hfirst call hearlier
    · exact hnext call hlater

end Evaluation

namespace Evaluator

variable {evaluator : Evaluator} {stack : Stack} {script : Script} {asked : List Call}
  {sig pubkey : Bytes}

/-- An evaluation comes to a signature and a key, with the questions `asked` put
before: it executes an operation that does. -/
def Meets (evaluator : Evaluator) (stack : Stack) (script : Script) (asked : List Call)
    (sig pubkey : Bytes) : Prop :=
  ∃ before opcode after m, evaluator.Passes stack script before (.op opcode :: after) m ∧
    m.executes = true ∧ m.opCount < maxOperations ∧
    Machine.Meets (evaluator.context script)
      { m with position := m.position + 1, opCount := m.opCount + 1 }
      (Operation.ofOpcode opcode) asked sig pubkey

/-- An evaluation ends where it meets a faulty pair, with the rule that the pair breaks. -/
theorem Meets.run_of_breaks {e : ScriptError} (h : evaluator.Meets stack script asked sig pubkey)
    (hbreaks : evaluator.flags.Breaks sig pubkey e) :
    (evaluator.run stack script).result = .error e ∧ (evaluator.run stack script).calls = asked := by
  obtain ⟨before, opcode, after, m, hpasses, hexecutes, hcount, hmeets⟩ := h
  obtain ⟨m', hexecute, hasked⟩ := hmeets.execute_of_breaks hbreaks
  have hstep : m.step (evaluator.context script) (.op opcode) = .failed e m' := by
    rw [Machine.step_op_of_executes hexecutes hmeets.isCounted hcount, hexecute,
      Outcome.failed_andThen]
  obtain ⟨hresult, hcalls, -⟩ := hpasses.run_of_step_eq_failed hstep
  exact ⟨hresult, hcalls.trans hasked⟩

/-- An evaluation asks about the pairs that it meets, one after the other, and only
about those that the flags admit. -/
theorem meets_of_prefix_calls {call : Call}
    (h : asked ++ [call] <+: (evaluator.run stack script).calls) :
    evaluator.flags.Admits call.sig call.pubkey ∧
      evaluator.Meets stack script asked call.sig call.pubkey := by
  obtain ⟨before, instruction, after, m, hpasses, hlater, hstep⟩ := exists_passes_of_run
    (P := fun _ calls => asked ++ [call] <+: calls) h (by simp)
  obtain ⟨opcode, rfl, hexecutes, hcount, hasks⟩ := Machine.asks_of_prefix_step hlater hstep
  exact ⟨hasks.admits, before, opcode, after, m, hpasses, hexecutes, hcount, hasks.meets⟩

/-- Every question of a run is about a pair that the flags admit. -/
theorem run_askedWithin (evaluator : Evaluator) (stack : Stack) (script : Script) :
    (evaluator.run stack script).AskedWithin evaluator.flags := by
  intro call hcall
  obtain ⟨asked, later, hsplit⟩ := List.append_of_mem hcall
  have hbegins : asked ++ [call] <+: (evaluator.run stack script).calls :=
    ⟨later, by rw [hsplit, List.append_assoc, List.singleton_append]⟩
  exact (meets_of_prefix_calls hbegins).1

@[simp] theorem andThen_requireTrue_calls (first : Evaluation) :
    (first.andThen requireTrue).calls = first.calls := by
  cases h : first.result <;> simp [Evaluation.andThen, h, requireTrue, leave]

/-- None of the evaluations of a verification changes the flags. -/
theorem verify_askedWithin (evaluator : Evaluator) (unlocking locking : Script) :
    (evaluator.verify unlocking locking).AskedWithin evaluator.flags := by
  have hnone : ∀ (left : Evaluator) result stack,
      (left.leave result stack).AskedWithin evaluator.flags := by
    intro left result stack call hcall
    cases hcall
  refine verify_induction evaluator unlocking locking (fun _ _ => hnone _ _ _)
    (fun left result stack _ _ => hnone left result stack) (fun left stack script hleft => ?_)
    fun first next => Evaluation.AskedWithin.andThen
  exact flags_eq_of_reset_eq hleft ▸ run_askedWithin left stack script

/-- The unlocking script only pushes where it must. -/
def Permits (evaluator : Evaluator) (unlocking locking : Script) : Prop :=
  evaluator.flags.has .sigPushOnly = true ∨ evaluator.redeems locking = true →
    unlocking.isPushOnly = true

/-- A verification evaluates a script on a stack, with the questions `earlier` put
by the evaluations before: the unlocking script, the locking script on the stack
that it leaves, and the script on top of that stack where it is asked for. -/
inductive Evaluates (evaluator : Evaluator) (unlocking locking : Script) (earlier : List Call)
    (stack : Stack) (script : Script) : Prop
  | ofUnlocking (hpermits : evaluator.Permits unlocking locking) (hcalls : earlier = [])
      (hstack : stack = []) (hscript : script = unlocking)
  | ofLocking (hpermits : evaluator.Permits unlocking locking)
      (hunlocked : (evaluator.run [] unlocking).result = .ok ())
      (hcalls : earlier = (evaluator.run [] unlocking).calls)
      (hstack : stack = (evaluator.run [] unlocking).stack) (hscript : script = locking)
  | ofRedeem (hpermits : evaluator.Permits unlocking locking)
      (hunlocked : (evaluator.run [] unlocking).result = .ok ())
      (hstack : script :: stack = (evaluator.run [] unlocking).stack)
      (hlocked : (evaluator.run (script :: stack) locking).verdict = .ok ())
      (hcalls : earlier =
        (evaluator.run [] unlocking).calls ++ (evaluator.run (script :: stack) locking).calls)
      (hredeems : evaluator.redeems locking = true)

variable {unlocking locking : Script} {earlier : List Call}

/-- An unlocking script that pushes where it must is followed by the other evaluations. -/
theorem verify_of_permits (h : evaluator.Permits unlocking locking) :
    evaluator.verify unlocking locking =
      (evaluator.run [] unlocking).andThen fun evaluator' unlocked =>
        ((evaluator'.run unlocked locking).andThen requireTrue).andThen fun evaluator' stack =>
          if evaluator.redeems locking then evaluator'.redeem unlocked
          else evaluator'.leave (.ok ()) stack := by
  unfold verify
  apply if_neg
  intro hrefused
  obtain ⟨hmust, hother⟩ := Bool.and_eq_true_iff.1 hrefused
  have hpushes := h (by simpa using hmust)
  simp [hpushes] at hother

/-- If pushes are asked for and something else is found, nothing is evaluated. -/
theorem verify_of_not_permits (h : ¬evaluator.Permits unlocking locking) :
    evaluator.verify unlocking locking = evaluator.leave (.error .sigPushOnly) [] := by
  obtain ⟨hmust, hother⟩ := Classical.not_imp.1 h
  unfold verify
  apply if_pos
  rw [Bool.not_eq_true] at hother
  rw [hother, Bool.not_false, Bool.and_true, Bool.or_eq_true]
  exact hmust

/-- A verification ends with the first of its evaluations that fails. -/
theorem Evaluates.verify_of_error {e : ScriptError}
    (h : evaluator.Evaluates unlocking locking earlier stack script)
    (hrun : (evaluator.run stack script).result = .error e) :
    (evaluator.verify unlocking locking).result = .error e ∧
      (evaluator.verify unlocking locking).calls =
        earlier ++ (evaluator.run stack script).calls := by
  cases h with
  | ofUnlocking hpermits hcalls hstack hscript =>
    subst hcalls hstack hscript
    rw [verify_of_permits hpermits, Evaluation.andThen_of_error hrun]
    exact ⟨hrun, rfl⟩
  | ofLocking hpermits hunlocked hcalls hstack hscript =>
    subst hcalls hscript
    have hlocked : ((evaluator.run [] unlocking).evaluator.run stack script).result = .error e := by
      simpa using hrun
    rw [verify_of_permits hpermits, Evaluation.andThen_result_of_ok hunlocked,
      Evaluation.andThen_calls_of_ok hunlocked, ← hstack, Evaluation.andThen_of_error hlocked,
      Evaluation.andThen_of_error hlocked]
    exact ⟨hlocked, by simp⟩
  | ofRedeem hpermits hunlocked hstack hverdict hcalls hredeems =>
    subst hcalls
    have hlocked : (((evaluator.run [] unlocking).evaluator.run (script :: stack) locking).andThen
        requireTrue).result = .ok () := by
      rw [andThen_requireTrue_result]
      simpa [run_verdict] using hverdict
    have hredeemed : (((((evaluator.run [] unlocking).evaluator.run (script :: stack) locking).andThen
        requireTrue).evaluator).run stack script).result = .error e := by
      simpa using hrun
    rw [verify_of_permits hpermits, Evaluation.andThen_result_of_ok hunlocked,
      Evaluation.andThen_calls_of_ok hunlocked, ← hstack, Evaluation.andThen_result_of_ok hlocked,
      Evaluation.andThen_calls_of_ok hlocked, if_pos hredeems, redeem,
      Evaluation.andThen_of_error hredeemed]
    exact ⟨hredeemed, by simp⟩

/-- The rules for signatures and keys cannot be got around. The checker is asked
only about pairs that keep the rules of the flags, in every evaluation and in
every verification, and about each as the evaluation meets it. An evaluation that
meets a pair that does not keep them ends with the rule that the pair breaks, that
of the signature first, and asks nothing more; and so does a verification,
whichever of its evaluations this is. The evaluator may hold whatever earlier
evaluations left in it. -/
theorem signature_rules_enforced (evaluator : Evaluator) :
    (∀ stack script, ∀ call ∈ (evaluator.run stack script).calls,
      evaluator.flags.Admits call.sig call.pubkey) ∧
    (∀ stack script asked call, asked ++ [call] <+: (evaluator.run stack script).calls →
      evaluator.Meets stack script asked call.sig call.pubkey) ∧
    (∀ unlocking locking, ∀ call ∈ (evaluator.verify unlocking locking).calls,
      evaluator.flags.Admits call.sig call.pubkey) ∧
    (∀ stack script asked sig pubkey, evaluator.Meets stack script asked sig pubkey →
      ¬evaluator.flags.Admits sig pubkey →
      ∃ e, evaluator.flags.Breaks sig pubkey e ∧
        (evaluator.run stack script).result = .error e ∧
        (evaluator.run stack script).calls = asked ∧
        ∀ unlocking locking earlier,
          evaluator.Evaluates unlocking locking earlier stack script →
          (evaluator.verify unlocking locking).result = .error e ∧
            (evaluator.verify unlocking locking).calls = earlier ++ asked) ∧
    (∀ sig pubkey, evaluator.flags.Admits sig pubkey →
      (evaluator.flags.has .derSig = true ∨ evaluator.flags.has .lowS = true ∨
          evaluator.flags.has .strictEnc = true →
        sig = [] ∨ StrictDer.isStrict sig = true) ∧
      (evaluator.flags.has .strictEnc = true →
        (pubkey.length = 33 ∧ (pubkey.head? = some 0x02 ∨ pubkey.head? = some 0x03)) ∨
          (pubkey.length = 65 ∧ pubkey.head? = some 0x04))) := by
  refine ⟨run_askedWithin evaluator, ?_, verify_askedWithin evaluator, ?_, ?_⟩
  · intro stack script asked call hbegins
    exact (meets_of_prefix_calls hbegins).2
  · intro stack script asked sig pubkey hmeets hrefused
    obtain ⟨e, hbreaks⟩ := Flags.exists_breaks_iff.2 hrefused
    obtain ⟨hresult, hcalls⟩ := hmeets.run_of_breaks hbreaks
    refine ⟨e, hbreaks, hresult, hcalls, ?_⟩
    intro unlocking locking earlier hevaluates
    obtain ⟨hverify, hasked⟩ := hevaluates.verify_of_error hresult
    rw [hcalls] at hasked
    exact ⟨hverify, hasked⟩
  · intro sig pubkey hadmits
    exact ⟨hadmits.isStrict, hadmits.keyForm⟩

/-- One signature for two keys, the second of which has no defined form: the
checker refuses the first key and is not asked about the second one. -/
theorem faulty_second_key_ends_scan :
    (Evaluator.verify ⟨⟨Flag.strictEnc.mask⟩, .refuseAll, [false], 7⟩
      [0x00, 0x09, 0x30, 6, 2, 1, 1, 2, 1, 1, 1]
      ([1, 1, 1, 5, 33, 2] ++ List.replicate 32 1 ++ [1, 2, 0xae])).result = .error .pubkeyType ∧
    (Evaluator.verify ⟨⟨Flag.strictEnc.mask⟩, .refuseAll, [false], 7⟩
      [0x00, 0x09, 0x30, 6, 2, 1, 1, 2, 1, 1, 1]
      ([1, 1, 1, 5, 33, 2] ++ List.replicate 32 1 ++ [1, 2, 0xae])).calls =
        [⟨[0x30, 6, 2, 1, 1, 2, 1, 1, 1], 2 :: List.replicate 32 1,
          [1, 1, 1, 5, 33, 2] ++ List.replicate 32 1 ++ [1, 2, 0xae], false⟩] ∧
    StrictDer.isStrict [0x30, 6, 2, 1, 1, 2, 1, 1, 1] = true := by
  obtain ⟨-, -, hverify, hbroken, hforms⟩ := signature_rules_enforced
    ⟨⟨Flag.strictEnc.mask⟩, .refuseAll, [false], 7⟩
  have hmeets : Meets ⟨⟨Flag.strictEnc.mask⟩, .refuseAll, [false], 7⟩
      [[0x30, 6, 2, 1, 1, 2, 1, 1, 1], []]
      ([1, 1, 1, 5, 33, 2] ++ List.replicate 32 1 ++ [1, 2, 0xae])
      [⟨[0x30, 6, 2, 1, 1, 2, 1, 1, 1], 2 :: List.replicate 32 1,
        [1, 1, 1, 5, 33, 2] ++ List.replicate 32 1 ++ [1, 2, 0xae], false⟩]
      [0x30, 6, 2, 1, 1, 2, 1, 1, 1] [5] := by
    refine ⟨[.push 1 [1], .push 1 [5], .push 33 (2 :: List.replicate 32 1), .push 1 [2]], 0xae, [],
      { stack := [[2], 2 :: List.replicate 32 1, [5], [1], [0x30, 6, 2, 1, 1, 2, 1, 1, 1], []]
        position := 40 },
      ⟨by decide, by decide +kernel, rfl⟩, rfl, by decide, ?_⟩
    exact .multiple (.inl rfl) rfl rfl (by decide) rfl
      (.next (by decide +kernel) rfl (by decide) (.first _ _ _ _))
  have hevaluates : Evaluates ⟨⟨Flag.strictEnc.mask⟩, .refuseAll, [false], 7⟩
      [0x00, 0x09, 0x30, 6, 2, 1, 1, 2, 1, 1, 1]
      ([1, 1, 1, 5, 33, 2] ++ List.replicate 32 1 ++ [1, 2, 0xae]) []
      [[0x30, 6, 2, 1, 1, 2, 1, 1, 1], []]
      ([1, 1, 1, 5, 33, 2] ++ List.replicate 32 1 ++ [1, 2, 0xae]) :=
    .ofLocking (by unfold Permits; decide) (by decide +kernel) (by decide +kernel) (by decide +kernel) rfl
  have hkey : (Flags.mk Flag.strictEnc.mask).Breaks [0x30, 6, 2, 1, 1, 2, 1, 1, 1] [5] .pubkeyType :=
    .key (by decide) (by decide)
  obtain ⟨e, hbreaks, -, -, hstages⟩ := hbroken _ _ _ _ _ hmeets (Flags.exists_breaks_iff.1 ⟨_, hkey⟩)
  obtain rfl := hbreaks.unique hkey
  obtain ⟨hresult, hasked⟩ := hstages _ _ _ hevaluates
  rw [List.nil_append] at hasked
  have hadmits := hverify _ _ _ (hasked ▸ List.mem_singleton.2 rfl)
  exact ⟨hresult, hasked, ((hforms _ _ hadmits).1 (by decide)).resolve_left (by decide)⟩

end Evaluator

end SpendCheck
