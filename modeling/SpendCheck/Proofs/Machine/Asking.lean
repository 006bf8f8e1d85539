import SpendCheck.Proofs.Machine.Frame
import SpendCheck.Proofs.Machine.Step
import SpendCheck.Proofs.Policy.Admission

namespace SpendCheck

namespace Context

variable {context : Context} {code : Script} {sig pubkey : Bytes}

/-- Where a rule is broken, the error of this rule is reported and no question is asked. -/
theorem ask_of_breaks {e : ScriptError} (h : context.flags.Breaks sig pubkey e) :
    context.ask code sig pubkey = .error e := by
  unfold ask
  cases h with
  | sig h => rw [h]
  | key hsig h => rw [hsig, h]

theorem admits_of_ask {call : Call} (h : context.ask code sig pubkey = .ok call) :
    context.flags.Admits call.sig call.pubkey := by
  obtain ⟨hsig, hkey, rfl⟩ := ask_eq_ok_iff.1 h
  exact ⟨hsig, hkey⟩

/-- A scan of signatures and keys reaches a signature and a key for each other,
with the questions `asked` put before. An accepted signature is done with, a key
is done with in any case, and the scan goes on while enough keys are left. -/
inductive Reaches (context : Context) (code : Script) :
    List Bytes → List Bytes → List Call → Bytes → Bytes → Prop
  | first (sig pubkey : Bytes) (sigs keys : List Bytes) :
      Reaches context code (sig :: sigs) (pubkey :: keys) [] sig pubkey
  | next {sig pubkey sig' pubkey' : Bytes} {sigs keys pending : List Bytes} {call : Call}
      {asked : List Call} (hask : context.ask code sig pubkey = .ok call)
      (hpending : pending = if call.valid then sigs else sig :: sigs)
      (henough : pending.length ≤ keys.length)
      (h : Reaches context code pending keys asked sig' pubkey') :
      Reaches context code (sig :: sigs) (pubkey :: keys) (call :: asked) sig' pubkey'

variable {sigs keys : List Bytes} {asked : List Call}

/-- A scan ends at the first faulty pair that it reaches, with the rule that this
pair breaks, and asks about no other pair. -/
theorem scan_of_reaches {e : ScriptError} (h : context.Reaches code sigs keys asked sig pubkey)
    (hbreaks : context.flags.Breaks sig pubkey e) :
    context.scan code sigs keys = ⟨asked, .error e⟩ := by
  induction h with
  | first sig pubkey sigs keys =>
    have hask : context.ask code sig pubkey = .error e := ask_of_breaks hbreaks
    simp only [scan, hask]
  | next hask hpending henough _ ih =>
    rw [scan, hask]
    simp only [← hpending, if_neg (Nat.not_lt.2 henough), ih hbreaks]

/-- The scan goes on with the next signature after a match and with the same one otherwise, and
it stops when there are more signatures than keys. -/
theorem scan_calls_of_ask {first : Call} (hask : context.ask code sig pubkey = .ok first)
    {pending : List Bytes} (hpending : pending = if first.valid then sigs else sig :: sigs) :
    (context.scan code (sig :: sigs) (pubkey :: keys)).calls =
      first :: if keys.length < pending.length then [] else (context.scan code pending keys).calls := by
  rw [scan, hask]
  simp only [← hpending]
  split <;> rfl

/-- A scan asks about the pairs that it reaches, one after the other, and only
about those that are in order. -/
theorem reaches_of_prefix_scan {call : Call}
    (h : asked ++ [call] <+: (context.scan code sigs keys).calls) :
    context.Reaches code sigs keys asked call.sig call.pubkey ∧
      context.flags.Admits call.sig call.pubkey := by
  -- Every key is tried once, with whatever signatures are pending then.
  induction keys generalizing sigs asked with
  | nil => cases sigs <;> simp [scan] at h
  | cons pubkey keys ih =>
    cases sigs with
    | nil => simp [scan] at h
    | cons sig sigs =>
      cases hask : context.ask code sig pubkey with
      | error e => simp [scan, hask] at h
      | ok first =>
        obtain ⟨pending, hpending⟩ : ∃ pending, pending = if first.valid then sigs else sig :: sigs :=
          ⟨_, rfl⟩
        rw [scan_calls_of_ask hask hpending] at h
        cases asked with
        | nil =>
          obtain ⟨rfl, -⟩ := List.cons_prefix_cons.1 h
          have hadmits := admits_of_ask hask
          obtain ⟨-, -, rfl⟩ := ask_eq_ok_iff.1 hask
          exact ⟨.first sig pubkey sigs keys, hadmits⟩
        | cons other asked =>
          obtain ⟨rfl, hrest⟩ := List.cons_prefix_cons.1 h
          split at hrest
          · simp at hrest
          · next henough =>
            obtain ⟨hreaches, hadmits⟩ := ih hrest
            exact ⟨.next hask hpending (Nat.not_lt.1 henough) hreaches, hadmits⟩

end Context

namespace Machine

variable {context : Context} {m : Machine}

theorem checkSig_of_breaks {sig pubkey : Bytes} {rest : Stack} {e : ScriptError}
    (hstack : m.stack = pubkey :: sig :: rest) (hbreaks : context.flags.Breaks sig pubkey e) :
    m.checkSig context = .failed e m := by
  unfold checkSig
  rw [hstack]
  simp only [Context.ask_of_breaks hbreaks]

/-- A multiple signature check that reaches a faulty pair fails with the rule that it breaks,
and it has put the questions before that pair. -/
theorem checkMultiSig_of_reaches {element sig pubkey : Bytes} {below : Stack} {keyCount : Nat}
    {args : MultiSig} {asked : List Call} {e : ScriptError} (hstack : m.stack = element :: below)
    (hcount : Number.decodeCount maxKeys .pubkeyCount element = .ok keyCount)
    (hroom : m.opCount + keyCount ≤ maxOperations)
    (hargs : MultiSig.ofStack? keyCount below = .ok args)
    (hreaches : context.Reaches ((m.scriptCode context).deletePushes args.sigs)
      args.sigs args.keys asked sig pubkey)
    (hbreaks : context.flags.Breaks sig pubkey e) :
    m.checkMultiSig context = .failed e
      { m with opCount := m.opCount + keyCount, calls := m.calls ++ asked } := by
  have hcounted : m.countOperations keyCount = .done { m with opCount := m.opCount + keyCount } :=
    countOperations_of_le hroom
  have hscan := Context.scan_of_reaches hreaches hbreaks
  have hsettle : settleMultiSig context args { m with opCount := m.opCount + keyCount } =
      .failed e { m with opCount := m.opCount + keyCount, calls := m.calls ++ asked } := by
    have hcode : scriptCode context { m with opCount := m.opCount + keyCount } =
      m.scriptCode context := rfl
    simp only [settleMultiSig, hcode, hscan]
  unfold checkMultiSig
  split
  · next hempty => simp [hstack] at hempty
  · next other rest hother =>
    rw [hstack] at hother
    cases hother
    simp only [hcount, hcounted, Outcome.done_andThen, hargs, hsettle]

/-- An operation on a machine comes to a signature and a key, with the questions
`asked` put before. It may then find that the two break a rule. -/
inductive Meets (context : Context) (m : Machine) : Operation → List Call → Bytes → Bytes → Prop
  | single {operation : Operation} {sig pubkey : Bytes} {rest : Stack}
      (hkind : operation = .checkSig ∨ operation = .checkSigVerify)
      (hstack : m.stack = pubkey :: sig :: rest) :
      Meets context m operation m.calls sig pubkey
  | multiple {operation : Operation} {element sig pubkey : Bytes} {below : Stack}
      {keyCount : Nat} {args : MultiSig} {asked : List Call}
      (hkind : operation = .checkMultiSig ∨ operation = .checkMultiSigVerify)
      (hstack : m.stack = element :: below)
      (hcount : Number.decodeCount maxKeys .pubkeyCount element = .ok keyCount)
      (hroom : m.opCount + keyCount ≤ maxOperations)
      (hargs : MultiSig.ofStack? keyCount below = .ok args)
      (hreaches : context.Reaches ((m.scriptCode context).deletePushes args.sigs)
        args.sigs args.keys asked sig pubkey) :
      Meets context m operation (m.calls ++ asked) sig pubkey

variable {operation : Operation} {asked : List Call} {sig pubkey : Bytes} {e : ScriptError}

/-- An operation fails at the first faulty pair that it meets. -/
theorem Meets.execute_of_breaks (h : m.Meets context operation asked sig pubkey)
    (hbreaks : context.flags.Breaks sig pubkey e) :
    ∃ m', m.execute context operation = .failed e m' ∧ m'.calls = asked := by
  cases h with
  | single hkind hstack =>
    have hcheck := checkSig_of_breaks hstack hbreaks
    obtain rfl | rfl := hkind
    · exact ⟨m, hcheck, rfl⟩
    · exact ⟨m, by rw [execute, hcheck, Outcome.failed_andThen], rfl⟩
  | multiple hkind hstack hcount hroom hargs hreaches =>
    have hcheck := checkMultiSig_of_reaches hstack hcount hroom hargs hreaches hbreaks
    obtain rfl | rfl := hkind
    · exact ⟨_, hcheck, rfl⟩
    · exact ⟨_, by rw [execute, hcheck, Outcome.failed_andThen], rfl⟩

/-- Only a counted opcode meets a pair of signature and key. -/
theorem Meets.isCounted {opcode : Opcode}
    (h : m.Meets context (Operation.ofOpcode opcode) asked sig pubkey) : opcode.isCounted = true := by
  cases h with
  | single hkind _ =>
    obtain hkind | hkind := hkind <;>
      exact Operation.isCounted_of_ofOpcode (by simp [hkind]) (by simp [hkind])
  | multiple hkind _ _ _ _ _ =>
    obtain hkind | hkind := hkind <;>
      exact Operation.isCounted_of_ofOpcode (by simp [hkind]) (by simp [hkind])

theorem exists_append_of_prefix_append {α : Type} {before first second : List α} {a : α}
    (h : before ++ [a] <+: first ++ second) (hlater : ¬before ++ [a] <+: first) :
    ∃ new, before = first ++ new ∧ new ++ [a] <+: second := by
  obtain hinside | hbegins := List.prefix_or_prefix_of_prefix h (List.prefix_append first second)
  · exact absurd hinside hlater
  · obtain hsame | ⟨new, hnew⟩ := List.prefix_concat_iff.1 hbegins
    · exact absurd (hsame ▸ List.prefix_refl _) hlater
    · rw [← hnew, List.append_assoc] at h
      exact ⟨new, hnew.symm, (List.prefix_append_right_inj first).1 h⟩

/-- An operation puts a question after the questions `asked`: it has met the pair,
and the flags admit it. -/
structure Asks (context : Context) (m : Machine) (operation : Operation) (asked : List Call)
    (call : Call) : Prop where
  meets : m.Meets context operation asked call.sig call.pubkey
  admits : context.flags.Admits call.sig call.pubkey

/-! A question that a machine has not put yet, and that it has put later, was asked
in between. -/

variable {call : Call}

/-- A check of one signature puts at most one question, about a pair that the flags admit. -/
theorem asks_of_prefix_checkSig (hkind : operation = .checkSig ∨ operation = .checkSigVerify)
    (hlater : ¬asked ++ [call] <+: m.calls) :
    asked ++ [call] <+: (m.checkSig context).state.calls → m.Asks context operation asked call := by
  apply checkSig_cases
    (P := fun o => asked ++ [call] <+: o.state.calls → m.Asks context operation asked call)
  · intro e h
    exact absurd h hlater
  · intro pubkey sig rest new hstack hask h
    obtain hlast | hbefore := List.prefix_concat_iff.1 h
    · obtain ⟨rfl, hcall⟩ := List.append_inj' hlast rfl
      obtain rfl := List.singleton_inj.1 hcall
      have hadmits := Context.admits_of_ask hask
      obtain ⟨-, -, rfl⟩ := Context.ask_eq_ok_iff.1 hask
      exact ⟨.single hkind hstack, hadmits⟩
    · exact absurd hbefore hlater

/-- A question that a multiple signature check puts is one that its scan comes to. -/
theorem asks_of_prefix_checkMultiSig
    (hkind : operation = .checkMultiSig ∨ operation = .checkMultiSigVerify)
    (hlater : ¬asked ++ [call] <+: m.calls) :
    asked ++ [call] <+: (m.checkMultiSig context).state.calls →
      m.Asks context operation asked call := by
  apply checkMultiSig_cases
    (P := fun o => asked ++ [call] <+: o.state.calls → m.Asks context operation asked call)
  · intro e h
    exact absurd h hlater
  · intro e keyCount h
    exact absurd h hlater
  · intro element below keyCount args hstack hcount hroom hargs
    have hscan : asked ++ [call] <+: m.calls ++ (context.scan
        ((m.scriptCode context).deletePushes args.sigs) args.sigs args.keys).calls →
        m.Asks context operation asked call := by
      intro h
      obtain ⟨new, rfl, hnew⟩ := exists_append_of_prefix_append h hlater
      obtain ⟨hreaches, hadmits⟩ := Context.reaches_of_prefix_scan hnew
      exact ⟨.multiple hkind hstack hcount hroom hargs hreaches, hadmits⟩
    exact settleMultiSig_cases
      (P := fun o => asked ++ [call] <+: o.state.calls → m.Asks context operation asked call)
      context { m with opCount := m.opCount + keyCount } args rfl (fun _ => hscan) hscan fun _ => hscan

/-- Only the operations that check signatures put questions. -/
theorem asks_of_prefix_execute (hlater : ¬asked ++ [call] <+: m.calls)
    (h : asked ++ [call] <+: (m.execute context operation).state.calls) :
    m.Asks context operation asked call := by
  cases hacts : operation.actsOnStacks with
  | true =>
    obtain ⟨stack, altStack, hstate⟩ := execute_state_of_actsOnStacks context m hacts
    rw [hstate] at h
    exact absurd h hlater
  | false =>
    cases operation with
    | branching kind =>
      obtain ⟨stack, conditions, hstate⟩ := branching_state m kind
      rw [execute, hstate] at h
      exact absurd h hlater
    | codeSeparator => exact absurd h hlater
    | checkSig => exact asks_of_prefix_checkSig (.inl rfl) hlater h
    | checkSigVerify =>
      obtain ⟨stack, hverify⟩ :=
        andThen_onStack_state (m.checkSig context) (Stack.verify .checkSigVerify)
      rw [execute, hverify] at h
      exact asks_of_prefix_checkSig (.inr rfl) hlater h
    | checkMultiSig => exact asks_of_prefix_checkMultiSig (.inl rfl) hlater h
    | checkMultiSigVerify =>
      obtain ⟨stack, hverify⟩ :=
        andThen_onStack_state (m.checkMultiSig context) (Stack.verify .checkMultiSigVerify)
      rw [execute, hverify] at h
      exact asks_of_prefix_checkMultiSig (.inr rfl) hlater h
    | _ => cases hacts

/-- An instruction asks only by an operation that it executes. -/
theorem asks_of_prefix_step {instruction : Instruction} (hlater : ¬asked ++ [call] <+: m.calls) :
    asked ++ [call] <+: (m.step context instruction).state.calls →
      ∃ opcode, instruction = .op opcode ∧ m.executes = true ∧ m.opCount < maxOperations ∧
        Asks context { m with position := m.position + 1, opCount := m.opCount + 1 }
          (Operation.ofOpcode opcode) asked call := by
  rw [step_state]
  apply perform_cases (P := fun left => asked ++ [call] <+: left.calls →
      ∃ opcode, instruction = .op opcode ∧ m.executes = true ∧ m.opCount < maxOperations ∧
        Asks context { m with position := m.position + 1, opCount := m.opCount + 1 }
          (Operation.ofOpcode opcode) asked call)
  · intro opCount _ h
    exact absurd h hlater
  · intro payload h
    rw [onStack_state] at h
    exact absurd h hlater
  · intro opcode opCount hop _ hcount hexecutes h
    subst hop
    have hasks : Asks context { m with position := m.position + 1, opCount := opCount }
        (Operation.ofOpcode opcode) asked call :=
      asks_of_prefix_execute hlater h
    obtain ⟨rfl, hroom⟩ := hcount hasks.meets.isCounted
    obtain hexecutes | ⟨kind, hkind⟩ := hexecutes
    · exact ⟨opcode, rfl, hexecutes, hroom, hasks⟩
    · -- Conditionals ask nothing.
      rw [hkind] at hasks
      cases hasks.meets with
      | single hkind _ => simp at hkind
      | multiple hkind _ _ _ _ _ => simp at hkind

end Machine

end SpendCheck
