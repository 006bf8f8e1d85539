import SpendCheck.Signature.Encoding

namespace SpendCheck

/-- A public key has 33 bytes behind one of two markers, or 65 behind another one. -/
theorem hasDefinedKeyForm_eq_true_iff {pubkey : Bytes} :
    hasDefinedKeyForm pubkey = true ↔
      (pubkey.length = 33 ∧ (pubkey.head? = some 0x02 ∨ pubkey.head? = some 0x03)) ∨
        (pubkey.length = 65 ∧ pubkey.head? = some 0x04) := by
  unfold hasDefinedKeyForm
  cases pubkey.head? with
  | none => simp
  | some first =>
    by_cases hcompressed : first = 0x02 ∨ first = 0x03
    · have hother : first ≠ 0x04 := by
        obtain rfl | rfl := hcompressed <;> decide
      simp [hcompressed, hother]
    · by_cases hwhole : first = 0x04
      · simp [hwhole]
      · simp [hcompressed, hwhole]

namespace Flags

/-- A signature and a key whose encodings keep the rules of the flags. -/
structure Admits (flags : Flags) (sig pubkey : Bytes) : Prop where
  sig_ok : checkSignatureEncoding flags sig = .ok ()
  key_ok : checkKeyEncoding flags pubkey = .ok ()

/-- The rule that a signature and a key break. Where both are faulty it is the
one of the signature. -/
inductive Breaks (flags : Flags) (sig pubkey : Bytes) (e : ScriptError) : Prop
  | sig (h : checkSignatureEncoding flags sig = .error e)
  | key (hsig : checkSignatureEncoding flags sig = .ok ()) (h : checkKeyEncoding flags pubkey = .error e)

variable {flags : Flags} {sig pubkey : Bytes}

/-- A pair is admitted exactly if it breaks no rule. -/
theorem exists_breaks_iff : (∃ e, flags.Breaks sig pubkey e) ↔ ¬flags.Admits sig pubkey := by
  constructor
  · rintro ⟨e, hbreaks⟩ hadmits
    cases hbreaks with
    | sig h => simp [hadmits.sig_ok] at h
    | key _ h => simp [hadmits.key_ok] at h
  · intro hrefused
    cases hsig : checkSignatureEncoding flags sig with
    | error e => exact ⟨e, .sig hsig⟩
    | ok _ =>
      cases hkey : checkKeyEncoding flags pubkey with
      | error e => exact ⟨e, .key hsig hkey⟩
      | ok _ => exact absurd ⟨hsig, hkey⟩ hrefused

/-- A pair breaks one rule at a time: the key is looked at only behind a signature that breaks
none. -/
theorem Breaks.unique {e e' : ScriptError} (h : flags.Breaks sig pubkey e)
    (h' : flags.Breaks sig pubkey e') : e = e' := by
  cases h with
  | sig h =>
    cases h' with
    | sig h' => simpa [h] using h'
    | key hsig _ => simp [h] at hsig
  | key hsig h =>
    cases h' with
    | sig h' => simp [hsig] at h'
    | key _ h' => simpa [h] using h'

theorem intersects_of_has {flag : Flag} {mask : UInt32} (hmask : mask &&& flag.mask = flag.mask)
    (hne : flag.mask ≠ 0) (h : flags.has flag = true) : flags.intersects mask = true := by
  have hflag : flags.bits &&& flag.mask = flag.mask := beq_iff_eq.1 h
  apply bne_iff_ne.2
  intro hnone
  apply hne
  calc flag.mask
      = flags.bits &&& (mask &&& flag.mask) := by rw [hmask, hflag]
    _ = 0 := by rw [← UInt32.and_assoc, hnone, UInt32.zero_and]

/-- Under any of the three flags for signatures, only the empty one and those in
strict DER are admitted. -/
theorem Admits.isStrict (h : flags.Admits sig pubkey)
    (hflag : flags.has .derSig = true ∨ flags.has .lowS = true ∨ flags.has .strictEnc = true) :
    sig = [] ∨ StrictDer.isStrict sig = true := by
  have hintersects : flags.intersects (Flag.derSig.mask ||| Flag.lowS.mask ||| Flag.strictEnc.mask) =
      true := by
    obtain hder | hlow | hstrict := hflag
    · exact intersects_of_has (by decide) (by decide) hder
    · exact intersects_of_has (by decide) (by decide) hlow
    · exact intersects_of_has (by decide) (by decide) hstrict
  obtain hempty | ⟨hstrict, -⟩ := checkSignatureEncoding_eq_ok_iff.1 h.sig_ok
  · exact .inl hempty
  · exact .inr (hstrict hintersects)

theorem Admits.keyForm (h : flags.Admits sig pubkey) (hflag : flags.has .strictEnc = true) :
    (pubkey.length = 33 ∧ (pubkey.head? = some 0x02 ∨ pubkey.head? = some 0x03)) ∨
      (pubkey.length = 65 ∧ pubkey.head? = some 0x04) :=
  hasDefinedKeyForm_eq_true_iff.1 (checkKeyEncoding_eq_ok_iff.1 h.key_ok hflag)

end Flags

end SpendCheck
