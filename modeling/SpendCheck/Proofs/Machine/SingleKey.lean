import SpendCheck.Proofs.Machine.MultiSig

namespace SpendCheck

variable {context : Context} {m : Machine} {sig pubkey dummy : Bytes} {base : Stack}

/-- A scan of one signature and one key puts their question, and no other. -/
theorem Context.scan_singleton (context : Context) (code : Script) (sig pubkey : Bytes) :
    context.scan code [sig] [pubkey] =
      match context.ask code sig pubkey with
      | .error e => ⟨[], .error e⟩
      | .ok call => ⟨[call], .ok call.valid⟩ := by
  cases hask : context.ask code sig pubkey with
  | error e => simp only [scan, hask]
  | ok call =>
    -- A refused signature is left without a key, an accepted one leaves nothing to do.
    cases hvalid : call.valid <;> simp [scan, hask, hvalid]

namespace Machine

/-- What a check makes of its question, with what is below the arguments. -/
def conclude (m : Machine) (base : Stack) : Except ScriptError Call → Outcome Machine
  | .error e => .failed e m
  | .ok call => .done { m with stack := Number.ofBool call.valid :: base, calls := m.calls ++ [call] }

theorem checkSig_eq_conclude (hstack : m.stack = pubkey :: sig :: base) :
    m.checkSig context =
      m.conclude base (context.ask ((m.scriptCode context).deletePush sig) sig pubkey) := by
  rw [checkSig, hstack]
  dsimp only
  cases context.ask ((m.scriptCode context).deletePush sig) sig pubkey <;> rfl

/-- With one signature and one key a scan puts one question, and the last argument is fine. -/
theorem settleMultiSig_eq_conclude (hdummy : context.flags.has .nullDummy = true → dummy = []) :
    m.settleMultiSig context ⟨[pubkey], [sig], dummy, base⟩ =
      m.conclude base (context.ask ((m.scriptCode context).deletePush sig) sig pubkey) := by
  have haccepted : ¬(context.flags.has .nullDummy && !dummy.isEmpty) = true := by
    intro hbad
    obtain ⟨hnull, hfilled⟩ := Bool.and_eq_true_iff.1 hbad
    simp [hdummy hnull] at hfilled
  have hcode : (m.scriptCode context).deletePushes [sig] = (m.scriptCode context).deletePush sig := rfl
  simp only [settleMultiSig, hcode, Context.scan_singleton]
  cases context.ask ((m.scriptCode context).deletePush sig) sig pubkey with
  | error e => simp only [conclude, List.append_nil]
  | ok call => simp only [conclude, if_neg haccepted]

/-- A multiple signature check of one signature for one key is one question, apart from the key
that is counted. -/
theorem checkMultiSig_eq_conclude {keyCount sigCount : Bytes}
    (hstack : m.stack = keyCount :: pubkey :: sigCount :: sig :: dummy :: base)
    (hkeyCount : Number.decode Number.maxSize keyCount = .ok 1)
    (hsigCount : Number.decode Number.maxSize sigCount = .ok 1)
    (hdummy : context.flags.has .nullDummy = true → dummy = [])
    (hroom : m.opCount + 1 ≤ maxOperations) :
    m.checkMultiSig context = conclude { m with opCount := m.opCount + 1 } base
      (context.ask ((m.scriptCode context).deletePush sig) sig pubkey) := by
  have hone : Number.decodeCount maxKeys .pubkeyCount keyCount = .ok 1 :=
    Number.decodeCount_of_decode hkeyCount (by decide : 1 ≤ maxKeys)
  have hcounted : m.countOperations 1 = .done { m with opCount := m.opCount + 1 } :=
    countOperations_of_le hroom
  have hargs : MultiSig.ofStack? 1 (pubkey :: sigCount :: sig :: dummy :: base) =
      .ok ⟨[pubkey], [sig], dummy, base⟩ :=
    @MultiSig.ofStack?_append [pubkey] [sig] sigCount dummy base hsigCount (Nat.le_refl 1)
  unfold checkMultiSig
  split
  · next hempty => simp [hstack] at hempty
  · next element below hcons =>
    rw [hstack] at hcons
    cases hcons
    simp only [hone, hcounted, Outcome.done_andThen, hargs]
    exact settleMultiSig_eq_conclude hdummy

/-- A multiple signature check of one signature and one key is a signature check. With
the same signature, key and elements below them, and with one more operation that may
be counted, both put the same question. Where an encoding is faulty they fail for the
same reason, and both leave their arguments and ask nothing. Else both replace their
arguments by the answer. -/
theorem single_multiSig_is_checkSig (context : Context) (m : Machine)
    {sig pubkey keyCount sigCount dummy : Bytes} {base : Stack}
    (hkeyCount : Number.decode Number.maxSize keyCount = .ok 1)
    (hsigCount : Number.decode Number.maxSize sigCount = .ok 1)
    (hdummy : dummy = [] ∨ context.flags.has .nullDummy = false) (hroom : m.opCount < maxOperations) :
    let single := { m with stack := pubkey :: sig :: base }
    let multiple := { m with stack := keyCount :: pubkey :: sigCount :: sig :: dummy :: base }
    let asked := context.ask ((m.scriptCode context).deletePush sig) sig pubkey
    (∃ e, asked = .error e ∧ single.checkSig context = .failed e single ∧
      multiple.checkMultiSig context = .failed e { multiple with opCount := m.opCount + 1 }) ∨
    ∃ call, asked = .ok call ∧
      single.checkSig context =
        .done { m with stack := Number.ofBool call.valid :: base, calls := m.calls ++ [call] } ∧
      multiple.checkMultiSig context = .done { m with
        stack := Number.ofBool call.valid :: base
        opCount := m.opCount + 1
        calls := m.calls ++ [call] } := by
  intro single multiple asked
  have hempty : context.flags.has .nullDummy = true → dummy = [] := by
    intro hnull
    obtain hempty | hfree := hdummy
    · exact hempty
    · simp [hnull] at hfree
  have hsingle : single.checkSig context = single.conclude base asked := checkSig_eq_conclude rfl
  have hmultiple : multiple.checkMultiSig context =
      conclude { multiple with opCount := m.opCount + 1 } base asked :=
    checkMultiSig_eq_conclude rfl hkeyCount hsigCount hempty hroom
  cases hasked : asked with
  | error e =>
    rw [hasked] at hsingle hmultiple
    exact .inl ⟨e, rfl, hsingle, hmultiple⟩
  | ok call =>
    rw [hasked] at hsingle hmultiple
    exact .inr ⟨call, rfl, hsingle, hmultiple⟩

/-- The counts are written in two ways, the last argument is not empty, and the last
operation that may be counted is the key. The question is put without the push of the
signature. -/
theorem single_key_counted_last :
    Machine.checkSig ⟨.none, .ofPairs [([7], [2])], [0x01, 0x07, 0xae]⟩
        { stack := [[2], [7], [9]], opCount := 200 } =
      .done { stack := [[1], [9]], opCount := 200, calls := [⟨[7], [2], [0xae], true⟩] } ∧
    Machine.checkMultiSig ⟨.none, .ofPairs [([7], [2])], [0x01, 0x07, 0xae]⟩
        { stack := [[1, 0], [2], [1], [7], [5], [9]], opCount := 200 } =
      .done { stack := [[1], [9]], opCount := 201, calls := [⟨[7], [2], [0xae], true⟩] } := by
  have hcode : Script.deletePush [7] [0x01, 0x07, 0xae] = [0xae] := by decide +kernel
  obtain ⟨e, hasked, -⟩ | ⟨call, hasked, hsingle, hmultiple⟩ := @single_multiSig_is_checkSig
    ⟨.none, .ofPairs [([7], [2])], [0x01, 0x07, 0xae]⟩ { stack := [], opCount := 200 }
    [7] [2] [1, 0] [1] [5] [[9]] (by decide) (by decide) (.inr (by decide)) (by decide)
  · cases hasked
  · obtain rfl : (⟨[7], [2], Script.deletePush [7] [0x01, 0x07, 0xae], true⟩ : Call) = call :=
      Except.ok.inj hasked
    rw [hcode] at hsingle hmultiple
    exact ⟨hsingle, hmultiple⟩

end Machine

end SpendCheck
