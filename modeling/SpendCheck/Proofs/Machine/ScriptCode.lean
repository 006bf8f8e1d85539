import SpendCheck.Proofs.Machine.Asking
import SpendCheck.Proofs.Machine.Separator
import SpendCheck.Proofs.Script.Deletion

namespace SpendCheck

/-- The questions of a scan are about the given signatures and show the given script code. -/
theorem Context.mem_scan_calls {context : Context} {code : Script} {sigs keys : List Bytes} {call : Call}
    (h : call ∈ (context.scan code sigs keys).calls) : call.sig ∈ sigs ∧ call.code = code := by
  induction keys generalizing sigs with
  | nil => cases sigs <;> simp [scan] at h
  | cons pubkey keys ih =>
    cases sigs with
    | nil => simp [scan] at h
    | cons sig sigs =>
      cases hask : context.ask code sig pubkey with
      | error e => simp [scan, hask] at h
      | ok first =>
        obtain ⟨pending, hpending⟩ : ∃ pending, pending = if first.valid then sigs else sig :: sigs :=
          ⟨_, rfl⟩
        rw [scan_calls_of_ask hask hpending] at h
        obtain rfl | hlater := List.mem_cons.1 h
        · obtain ⟨-, -, rfl⟩ := ask_eq_ok_iff.1 hask
          exact ⟨List.mem_cons_self, rfl⟩
        · split at hlater
          · cases hlater
          · obtain ⟨hsig, hcode⟩ := ih hlater
            refine ⟨?_, hcode⟩
            rw [hpending] at hsig
            split at hsig
            · exact List.mem_cons_of_mem sig hsig
            · exact hsig

/-- The signatures that an operation checks, as the stack holds them. -/
inductive Operation.Checks (stack : Stack) : Operation → List Bytes → Prop
  | single {operation : Operation} {pubkey sig : Bytes} {rest : Stack}
      (hkind : operation = .checkSig ∨ operation = .checkSigVerify)
      (hstack : stack = pubkey :: sig :: rest) : Checks stack operation [sig]
  | multiple {operation : Operation} {element : Bytes} {below : Stack} {keyCount : Nat}
      {args : MultiSig} (hkind : operation = .checkMultiSig ∨ operation = .checkMultiSigVerify)
      (hstack : stack = element :: below)
      (hcount : Number.decodeCount maxKeys .pubkeyCount element = .ok keyCount)
      (hargs : MultiSig.ofStack? keyCount below = .ok args) : Checks stack operation args.sigs

/-- The operation is one of those that check signatures. -/
def Operation.checksSignatures : Operation → Bool
  | checkSig | checkSigVerify | checkMultiSig | checkMultiSigVerify => true
  | _ => false

theorem Operation.isCounted_of_checksSignatures {opcode : Opcode}
    (h : (Operation.ofOpcode opcode).checksSignatures = true) : opcode.isCounted = true := by
  apply isCounted_of_ofOpcode
  · intro value hkind
    rw [hkind] at h
    cases h
  · intro hkind
    rw [hkind] at h
    cases h

theorem Operation.Checks.checksSignatures {stack : Stack} {operation : Operation} {sigs : List Bytes}
    (h : operation.Checks stack sigs) : operation.checksSignatures = true := by
  cases h with
  | single hkind _ => obtain rfl | rfl := hkind <;> rfl
  | multiple hkind _ _ _ => obtain rfl | rfl := hkind <;> rfl

/-- The stack decides which signatures an operation checks. -/
theorem Operation.Checks.unique {stack : Stack} {operation : Operation} {sigs sigs' : List Bytes}
    (h : operation.Checks stack sigs) (h' : operation.Checks stack sigs') : sigs = sigs' := by
  cases h with
  | single hkind hstack =>
    cases h' with
    | single _ hstack' =>
      cases hstack.symm.trans hstack'
      rfl
    | multiple hkind' _ _ _ => obtain rfl | rfl := hkind <;> simp at hkind'
  | multiple hkind hstack hcount hargs =>
    cases h' with
    | single hkind' _ => obtain rfl | rfl := hkind <;> simp at hkind'
    | multiple _ hstack' hcount' hargs' =>
      cases hstack.symm.trans hstack'
      cases hcount.symm.trans hcount'
      cases hargs.symm.trans hargs'
      rfl

namespace Machine

variable {context : Context} {m left : Machine} {operation : Operation}

/-- New questions, if there are any, are about signatures that an operation checks,
and each of them shows the script code without the pushes of these signatures. -/
def Shows (context : Context) (m : Machine) (operation : Operation) (new : List Call) : Prop :=
  new ≠ [] → ∃ sigs, operation.Checks m.stack sigs ∧
    ∀ call ∈ new, call.sig ∈ sigs ∧ call.code = (m.scriptCode context).deletePushes sigs

theorem shows_nil : m.Shows context operation [] :=
  fun hne => absurd rfl hne

theorem shows_of_calls_eq (h : left.calls = m.calls) :
    ∃ new, left.calls = m.calls ++ new ∧ m.Shows context operation new :=
  ⟨[], by rw [h, List.append_nil], shows_nil⟩

/-- A check of one signature shows the script code without the pushes of that signature. -/
theorem shows_checkSig (hkind : operation = .checkSig ∨ operation = .checkSigVerify) :
    ∃ new, (m.checkSig context).state.calls = m.calls ++ new ∧ m.Shows context operation new := by
  apply checkSig_cases
    (P := fun o => ∃ new, o.state.calls = m.calls ++ new ∧ m.Shows context operation new)
  · intro e
    exact shows_of_calls_eq rfl
  · intro pubkey sig rest call hstack hask
    obtain ⟨-, -, rfl⟩ := Context.ask_eq_ok_iff.1 hask
    refine ⟨[_], rfl, fun _ => ⟨[sig], .single hkind hstack, ?_⟩⟩
    intro call hcall
    obtain rfl := List.mem_singleton.1 hcall
    exact ⟨List.mem_singleton_self sig, rfl⟩

/-- A multiple signature check shows the script code without the pushes of all its signatures,
in every question. -/
theorem shows_checkMultiSig (hkind : operation = .checkMultiSig ∨ operation = .checkMultiSigVerify) :
    ∃ new, (m.checkMultiSig context).state.calls = m.calls ++ new ∧
      m.Shows context operation new := by
  apply checkMultiSig_cases
    (P := fun o => ∃ new, o.state.calls = m.calls ++ new ∧ m.Shows context operation new)
  · intro e
    exact shows_of_calls_eq rfl
  · intro e keyCount
    exact shows_of_calls_eq rfl
  · intro element below keyCount args hstack hcount _ hargs
    have hscan : m.Shows context operation
        (context.scan ((m.scriptCode context).deletePushes args.sigs) args.sigs args.keys).calls :=
      fun _ => ⟨args.sigs, .multiple hkind hstack hcount hargs, fun _ => Context.mem_scan_calls⟩
    exact settleMultiSig_cases
      (P := fun o => ∃ new, o.state.calls = m.calls ++ new ∧ m.Shows context operation new)
      context { m with opCount := m.opCount + keyCount } args rfl (fun _ => ⟨_, rfl, hscan⟩)
      ⟨_, rfl, hscan⟩ (fun _ => ⟨_, rfl, hscan⟩)

/-- Only the two kinds of check put questions, and each of them shows what it should. -/
theorem shows_execute (context : Context) (m : Machine) (operation : Operation) :
    ∃ new, (m.execute context operation).state.calls = m.calls ++ new ∧
      m.Shows context operation new := by
  cases hacts : operation.actsOnStacks with
  | true =>
    obtain ⟨stack, altStack, hstate⟩ := execute_state_of_actsOnStacks context m hacts
    exact shows_of_calls_eq (by rw [hstate])
  | false =>
    cases operation with
    | branching kind =>
      obtain ⟨stack, conditions, hstate⟩ := branching_state m kind
      exact shows_of_calls_eq (by rw [execute, hstate])
    | codeSeparator => exact shows_of_calls_eq rfl
    | checkSig => exact shows_checkSig (.inl rfl)
    | checkSigVerify =>
      obtain ⟨stack, hverify⟩ :=
        andThen_onStack_state (m.checkSig context) (Stack.verify .checkSigVerify)
      rw [execute, hverify]
      exact shows_checkSig (.inr rfl)
    | checkMultiSig => exact shows_checkMultiSig (.inl rfl)
    | checkMultiSigVerify =>
      obtain ⟨stack, hverify⟩ :=
        andThen_onStack_state (m.checkMultiSig context) (Stack.verify .checkMultiSigVerify)
      rw [execute, hverify]
      exact shows_checkMultiSig (.inr rfl)
    | _ => cases hacts

/-- An instruction that puts questions executes an operation that checks
signatures. -/
theorem calls_of_step (context : Context) (m : Machine) (instruction : Instruction) :
    ∃ new, (m.step context instruction).state.calls = m.calls ++ new ∧
      (new ≠ [] → ∃ opcode, instruction = .op opcode ∧ m.executes = true ∧
        m.Shows context (Operation.ofOpcode opcode) new) := by
  have hsilent : ∀ left : Machine, left.calls = m.calls →
      ∃ new, left.calls = m.calls ++ new ∧
        (new ≠ [] → ∃ opcode, instruction = .op opcode ∧ m.executes = true ∧
          m.Shows context (Operation.ofOpcode opcode) new) :=
    fun left h => ⟨[], by rw [h, List.append_nil], fun hne => absurd rfl hne⟩
  rw [step_state]
  apply perform_cases (P := fun left => ∃ new, left.calls = m.calls ++ new ∧
    (new ≠ [] → ∃ opcode, instruction = .op opcode ∧ m.executes = true ∧
      m.Shows context (Operation.ofOpcode opcode) new))
  · intro opCount _
    exact hsilent _ rfl
  · intro payload
    exact hsilent _ (by rw [onStack_state])
  · intro opcode opCount hop _ _ hexecutes
    obtain ⟨new, hcalls, hshows⟩ := shows_execute context
      { m with position := m.position + instruction.size, opCount := opCount }
      (Operation.ofOpcode opcode)
    refine ⟨new, hcalls, fun hne => ⟨opcode, hop, ?_, hshows⟩⟩
    obtain hexecutes | ⟨kind, hkind⟩ := hexecutes
    · exact hexecutes
    · -- Conditionals check no signatures.
      obtain ⟨sigs, hchecks, -⟩ := hshows hne
      rw [hkind] at hchecks
      cases hchecks.checksSignatures

end Machine

namespace Evaluator

variable {evaluator : Evaluator} {stack : Stack} {script : Script}

/-- Evaluating a script passes an opcode behind the instructions `before`, where the
machine is `m`, and this opcode puts the questions `new`. -/
structure Puts (evaluator : Evaluator) (stack : Stack) (script : Script)
    (before : List Instruction) (opcode : Opcode) (after : List Instruction) (m : Machine)
    (new : List Call) : Prop where
  passes : evaluator.Passes stack script before (.op opcode :: after) m
  calls_eq : (m.step (evaluator.context script) (.op opcode)).state.calls = m.calls ++ new

variable {before after : List Instruction} {opcode : Opcode} {m : Machine} {new : List Call}

/-- Every question of an evaluation is put by an opcode that it passes. -/
theorem exists_puts_of_prefix_calls {asked : List Call} {call : Call}
    (h : asked ++ [call] <+: (evaluator.run stack script).calls) :
    ∃ before opcode after m earlier new, evaluator.Puts stack script before opcode after m new ∧
      asked = m.calls ++ earlier ∧ earlier ++ [call] <+: new := by
  obtain ⟨before, instruction, after, m, hpasses, hlater, hstep⟩ := exists_passes_of_run
    (P := fun _ calls => asked ++ [call] <+: calls) h (by simp)
  obtain ⟨new, hcalls, hnew⟩ := Machine.calls_of_step (evaluator.context script) m instruction
  rw [hcalls] at hstep
  obtain ⟨earlier, hasked, hprefix⟩ := Machine.exists_append_of_prefix_append hstep hlater
  have hne : new ≠ [] := by
    rintro rfl
    simp at hprefix
  obtain ⟨opcode, rfl, -, -⟩ := hnew hne
  exact ⟨before, opcode, after, m, earlier, new, ⟨hpasses, hcalls⟩, hasked, hprefix⟩

/-- The part that signatures sign consists of instructions of the script. -/
theorem SignsFrom.instructions_suffix {start : Nat} (h : evaluator.SignsFrom stack script before start)
    (hscript : script.instructions = before ++ after) :
    Script.instructions (script.drop start) <:+ script.instructions := by
  cases h with
  | start _ => exact List.suffix_refl _
  | @separator first rest hbefore _ _ =>
    have hsplit : script.instructions = (first ++ [.op Opcode.codeSeparator]) ++ (rest ++ after) := by
      simp [hscript, hbefore]
    rw [Script.instructions, Script.decode_drop hsplit, hsplit]
    exact List.suffix_append _ _

/-- An opcode that puts questions is executed. -/
theorem Puts.shows (h : evaluator.Puts stack script before opcode after m new) :
    new ≠ [] → m.executes = true ∧
      m.Shows (evaluator.context script) (Operation.ofOpcode opcode) new := by
  intro hne
  obtain ⟨others, hcalls, hothers⟩ :=
    Machine.calls_of_step (evaluator.context script) m (.op opcode)
  obtain rfl := List.append_cancel_left (hcalls.symm.trans h.calls_eq)
  obtain ⟨_, hop, hexecutes, hshows⟩ := hothers hne
  cases hop
  exact ⟨hexecutes, hshows⟩

/-- Every question shows the right part of the script, without the signatures. A
question of an evaluation is put by an executed opcode that checks signatures. All
questions of this opcode show the same code: the part of the script from the end of
the last executed separator on, without the instructions that push one of the
signatures that the opcode checks, whatever order these stand in. None of the
instructions of the code pushes one of them. -/
theorem questions_show_signed_part (evaluator : Evaluator) (stack : Stack) (script : Script) :
    (∀ asked call, asked ++ [call] <+: (evaluator.run stack script).calls →
      ∃ before opcode after m earlier new, evaluator.Puts stack script before opcode after m new ∧
        asked = m.calls ++ earlier ∧ earlier ++ [call] <+: new) ∧
    (∀ before opcode after m new, evaluator.Puts stack script before opcode after m new → new ≠ [] →
      m.executes = true ∧
      ∃ sigs start code, (Operation.ofOpcode opcode).Checks m.stack sigs ∧
        evaluator.SignsFrom stack script before start ∧
        Script.instructions (script.drop start) <:+ script.instructions ∧
        (∀ call ∈ new, call.sig ∈ sigs ∧ call.code = code) ∧
        ((∀ sig ∈ sigs, sig.length < 2 ^ 32) →
          code = Script.withoutInstructions (sigs.map Script.pushData) (script.drop start) ∧
          (∀ instruction ∈ code.instructions, instruction.bytes ∉ sigs.map Script.pushData) ∧
          ∀ reordered sigs' new', (Operation.ofOpcode opcode).Checks reordered sigs' → sigs'.Perm sigs →
            (Machine.step (evaluator.context script) { m with stack := reordered }
              (.op opcode)).state.calls = m.calls ++ new' →
            ∀ call ∈ new', call.code = code)) := by
  refine ⟨fun asked call => exists_puts_of_prefix_calls, ?_⟩
  intro before opcode after m new hputs hne
  obtain ⟨hexecutes, hshows⟩ := hputs.shows hne
  obtain ⟨sigs, hchecks, hcalls⟩ := hshows hne
  have hstart := hputs.passes.signsFrom
  refine ⟨hexecutes, sigs, m.separator, _, hchecks, hstart,
    hstart.instructions_suffix hputs.passes.instructions_eq, hcalls, ?_⟩
  intro hsizes
  have hcode := Script.deletePushes_eq hsizes (m.scriptCode (evaluator.context script))
  refine ⟨hcode, ?_, ?_⟩
  · intro instruction hmem
    rw [hcode, Script.instructions, Script.decode_withoutInstructions] at hmem
    simpa using (List.mem_filter.1 hmem).2
  · intro reordered sigs' new' hchecks' hperm hnew' call hcall
    obtain ⟨others, hothers, hshows'⟩ := Machine.calls_of_step (evaluator.context script)
      { m with stack := reordered } (.op opcode)
    obtain rfl := List.append_cancel_left (hothers.symm.trans hnew')
    obtain ⟨_, hop, -, hshows'⟩ := hshows' (List.ne_nil_of_mem hcall)
    cases hop
    obtain ⟨found, hfound, hcalls'⟩ := hshows' (List.ne_nil_of_mem hcall)
    obtain rfl := hchecks'.unique hfound
    have hsizes' : ∀ sig ∈ sigs', sig.length < 2 ^ 32 :=
      fun sig hsig => hsizes sig (hperm.mem_iff.1 hsig)
    rw [(hcalls' call hcall).2, Script.deletePushes_eq hsizes', hcode,
      Script.withoutInstructions_of_perm (hperm.map Script.pushData)]
    rfl

/-- A separator that is executed, one that is not, and a push of the signature
between them and the check. -/
theorem skipped_separator_stays_in_code :
    (Evaluator.run ⟨.none, .acceptAll, [false], 7⟩ [[1], [5], [1], [7], []]
      [0xab, 0x00, 0x63, 0xab, 0x68, 0x01, 0x07, 0x75, 0xae]).calls =
        [⟨[7], [5], [0x00, 0x63, 0xab, 0x68, 0x75, 0xae], true⟩] ∧
    ∃ start, Evaluator.SignsFrom ⟨.none, .acceptAll, [false], 7⟩ [[1], [5], [1], [7], []]
        [0xab, 0x00, 0x63, 0xab, 0x68, 0x01, 0x07, 0x75, 0xae]
        [.op 0xab, .push 0x00 [], .op 0x63, .op 0xab, .op 0x68, .push 0x01 [7], .op 0x75] start ∧
      [0x00, 0x63, 0xab, 0x68, 0x75, 0xae] = Script.withoutInstructions [[0x01, 0x07]]
        (List.drop start [0xab, 0x00, 0x63, 0xab, 0x68, 0x01, 0x07, 0x75, 0xae]) := by
  obtain ⟨-, hshown⟩ := questions_show_signed_part ⟨.none, .acceptAll, [false], 7⟩
    [[1], [5], [1], [7], []] [0xab, 0x00, 0x63, 0xab, 0x68, 0x01, 0x07, 0x75, 0xae]
  have hputs : Evaluator.Puts ⟨.none, .acceptAll, [false], 7⟩ [[1], [5], [1], [7], []]
      [0xab, 0x00, 0x63, 0xab, 0x68, 0x01, 0x07, 0x75, 0xae]
      [.op 0xab, .push 0x00 [], .op 0x63, .op 0xab, .op 0x68, .push 0x01 [7], .op 0x75] 0xae []
      { stack := [[1], [5], [1], [7], []], opCount := 5, separator := 1, position := 8 }
      [⟨[7], [5], [0x00, 0x63, 0xab, 0x68, 0x75, 0xae], true⟩] :=
    ⟨⟨by decide, by decide +kernel, rfl⟩, by decide +kernel⟩
  obtain ⟨-, sigs, start, code, hchecks, hstart, -, hcalls, hcode⟩ :=
    hshown _ _ _ _ _ hputs (List.cons_ne_nil _ _)
  have hchecked : Operation.Checks [[1], [5], [1], [7], []] (Operation.ofOpcode 0xae) [[7]] :=
    @Operation.Checks.multiple _ _ _ _ _ ⟨[[5]], [[7]], [], []⟩ (.inl rfl) rfl rfl rfl
  obtain rfl := hchecks.unique hchecked
  obtain ⟨-, rfl⟩ := hcalls _ List.mem_cons_self
  exact ⟨by decide +kernel, start, hstart, (hcode (by simp)).1⟩

end Evaluator

end SpendCheck
