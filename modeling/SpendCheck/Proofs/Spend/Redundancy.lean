import SpendCheck.Proofs.Policy.Bits
import SpendCheck.Proofs.Spend.Agreement

namespace SpendCheck

variable {flags other : Flags} {flag : Flag} {unlocking locking : Script}

/-- The flag asks for nothing that is not asked for anyway, by the other flags or
because of what the scripts are. -/
inductive Flags.Redundant (flags : Flags) (unlocking locking : Script) : Flag → Prop
  | derSig (hasked : flags.has .lowS = true ∨ flags.has .strictEnc = true) :
      Redundant flags unlocking locking .derSig
  | p2sh (hform : locking.isPayToScriptHash = false) : Redundant flags unlocking locking .p2sh
  | sigPushOnly (hasked : unlocking.isPushOnly = true ∨
        flags.has .p2sh = true ∧ locking.isPayToScriptHash = true) :
      Redundant flags unlocking locking .sigPushOnly

/-- The rules for signatures ask whether any of three flags is set, and for two of these also
separately. -/
theorem checkSignatureEncoding_congr
    (hstrictDer : flags.intersects (Flag.derSig.mask ||| Flag.lowS.mask ||| Flag.strictEnc.mask) =
      other.intersects (Flag.derSig.mask ||| Flag.lowS.mask ||| Flag.strictEnc.mask))
    (hlowS : flags.has .lowS = other.has .lowS) (hstrictEnc : flags.has .strictEnc = other.has .strictEnc)
    (sig : Bytes) : checkSignatureEncoding flags sig = checkSignatureEncoding other sig := by
  simp only [checkSignatureEncoding, hstrictDer, hlowS, hstrictEnc]

theorem checkKeyEncoding_congr (hstrictEnc : flags.has .strictEnc = other.has .strictEnc)
    (pubkey : Bytes) : checkKeyEncoding flags pubkey = checkKeyEncoding other pubkey := by
  simp only [checkKeyEncoding, hstrictEnc]

namespace Flags.Redundant

variable (h : flags.Redundant unlocking locking flag) (hsame : flags.SameBut flag other)
include h hsame

theorem has_strictEnc : flags.has .strictEnc = other.has .strictEnc :=
  hsame _ (by cases h <;> decide)

theorem has_lowS : flags.has .lowS = other.has .lowS :=
  hsame _ (by cases h <;> decide)

theorem has_nullDummy : flags.has .nullDummy = other.has .nullDummy :=
  hsame _ (by cases h <;> decide)

/-- Where another flag asks for strict DER, `DERSIG` adds nothing. -/
theorem intersects_eq :
    flags.intersects (Flag.derSig.mask ||| Flag.lowS.mask ||| Flag.strictEnc.mask) =
      other.intersects (Flag.derSig.mask ||| Flag.lowS.mask ||| Flag.strictEnc.mask) := by
  rw [intersects_strictDer, intersects_strictDer]
  have hlowS := h.has_lowS hsame
  have hstrictEnc := h.has_strictEnc hsame
  cases h with
  | derSig hasked =>
    rw [← hlowS, ← hstrictEnc]
    obtain hasked | hasked := hasked <;> simp [hasked]
  | p2sh | sigPushOnly => rw [hlowS, hstrictEnc, hsame .derSig (by decide)]

theorem agrees (checker : Checker) :
    Evaluator.Agrees { flags := flags, checker := checker } { flags := other, checker := checker } := by
  intro script
  have hsig := checkSignatureEncoding_congr (h.intersects_eq hsame) (h.has_lowS hsame)
    (h.has_strictEnc hsame)
  have hkey := checkKeyEncoding_congr (h.has_strictEnc hsame)
  refine ⟨rfl, fun code sig pubkey => ?_, h.has_nullDummy hsame⟩
  simp only [Context.ask, Evaluator.context, hsig, hkey]

/-- Where the locking script has another form, `P2SH` adds nothing. -/
theorem redeems_eq (checker : Checker) :
    Evaluator.redeems { flags := flags, checker := checker } locking =
      Evaluator.redeems { flags := other, checker := checker } locking := by
  unfold Evaluator.redeems
  cases h with
  | p2sh hform => simp only [hform, Bool.and_false]
  | derSig | sigPushOnly => simp only [hsame .p2sh (by decide)]

/-- Where the unlocking script only pushes, or must do so anyway, `SIGPUSHONLY` adds
nothing. -/
theorem permits_iff (checker : Checker) :
    Evaluator.Permits { flags := flags, checker := checker } unlocking locking ↔
      Evaluator.Permits { flags := other, checker := checker } unlocking locking := by
  have hredeems := h.redeems_eq hsame checker
  unfold Evaluator.Permits
  rw [hredeems]
  cases h with
  | derSig | p2sh => rw [hsame .sigPushOnly (by decide)]
  | sigPushOnly hasked =>
    obtain hpushes | ⟨hp2sh, hform⟩ := hasked
    · simp only [hpushes, implies_true]
    · have hmust : Evaluator.redeems { flags := other, checker := checker } locking = true := by
        rw [← hredeems]
        exact Bool.and_eq_true_iff.2 ⟨hp2sh, hform⟩
      simp only [hmust, or_true]

end Flags.Redundant

/-- Redundant flags are without effect. Where a flag asks for nothing that is not asked
for anyway, a verification under flags that differ at most in this one has the same
result, also in its error, and puts the same questions to the checker, with the same
answers. Among these are the flags with this one set and the flags with it cleared. -/
theorem redundant_flag_without_effect (h : flags.Redundant unlocking locking flag)
    (checker : Checker) :
    (∀ other, flags.SameBut flag other →
      (verifyScript flags checker unlocking locking).result =
          (verifyScript other checker unlocking locking).result ∧
        (verifyScript flags checker unlocking locking).calls =
          (verifyScript other checker unlocking locking).calls) ∧
    flags.SameBut flag (flags.insert flag.mask) ∧ flags.SameBut flag (flags.erase flag.mask) := by
  refine ⟨fun other hsame => ?_, Flags.sameBut_insert flag flags, Flags.sameBut_erase flag flags⟩
  have hverify := (h.agrees hsame checker).verify (h.permits_iff hsame checker)
    (h.redeems_eq hsame checker)
  exact ⟨hverify.result_eq, hverify.calls_eq⟩

/-- A script hash is spent by a script that does more than push, and a low signature is
checked: `SIGPUSHONLY` changes nothing under `P2SH`, nor does `DERSIG` under `LOW_S`. -/
theorem sigPushOnly_without_effect_on_scriptHash :
    Flags.Redundant ⟨Flag.p2sh.mask⟩ [0x61] (Script.toPayToScriptHash [0x51]) .sigPushOnly ∧
    (verifyScript ((Flags.mk Flag.p2sh.mask).insert Flag.sigPushOnly.mask) .refuseAll [0x61]
      (Script.toPayToScriptHash [0x51])).result = .error .sigPushOnly ∧
    Flags.Redundant ⟨Flag.lowS.mask⟩ [9, 0x30, 6, 2, 1, 1, 2, 1, 1, 1, 1, 5] [0xac] .derSig ∧
    (verifyScript ((Flags.mk Flag.lowS.mask).insert Flag.derSig.mask) .acceptAll
      [9, 0x30, 6, 2, 1, 1, 2, 1, 1, 1, 1, 5] [0xac]).calls =
        [⟨[0x30, 6, 2, 1, 1, 2, 1, 1, 1], [5], [0xac], true⟩] := by
  have hpushes : Flags.Redundant ⟨Flag.p2sh.mask⟩ [0x61] (Script.toPayToScriptHash [0x51]) .sigPushOnly :=
    .sigPushOnly (.inr ⟨by decide, by decide +kernel⟩)
  have hder : Flags.Redundant ⟨Flag.lowS.mask⟩ [9, 0x30, 6, 2, 1, 1, 2, 1, 1, 1, 1, 5] [0xac] .derSig :=
    .derSig (.inl (by decide))
  obtain ⟨hpushesSame, hpushesSet, -⟩ := redundant_flag_without_effect hpushes .refuseAll
  obtain ⟨hderSame, hderSet, -⟩ := redundant_flag_without_effect hder .acceptAll
  refine ⟨hpushes, ?_, hder, ?_⟩
  · rw [← (hpushesSame _ hpushesSet).1]
    decide +kernel
  · rw [← (hderSame _ hderSet).2]
    decide +kernel

end SpendCheck
