import SpendCheck.Proofs.Policy.Bits
import SpendCheck.Signature.Encoding

namespace SpendCheck

/-- The error belongs to no policy: an evaluation may end with it under any flags. -/
def ScriptError.isPlain : ScriptError → Bool
  | ok | sigHashType | sigDer | sigPushOnly | sigHighS | sigNullDummy | pubkeyType | cleanStack => false
  | _ => true

/-- The evaluation of a script may end with the error under the flags. It is an error, it
is not the one that is kept for a policy about the stack that is left, and it is one of
a policy only where a flag asks for that policy. What an unlocking script may contain is
no policy about its evaluation. -/
structure Flags.AccountsFor (flags : Flags) (e : ScriptError) : Prop where
  ne_ok : e ≠ .ok
  ne_cleanStack : e ≠ .cleanStack
  ne_sigPushOnly : e ≠ .sigPushOnly
  sigDer : e = .sigDer →
    flags.has .derSig = true ∨ flags.has .lowS = true ∨ flags.has .strictEnc = true
  sigHighS : e = .sigHighS → flags.has .lowS = true
  sigHashType : e = .sigHashType → flags.has .strictEnc = true
  pubkeyType : e = .pubkeyType → flags.has .strictEnc = true
  sigNullDummy : e = .sigNullDummy → flags.has .nullDummy = true

namespace Flags

variable {flags : Flags} {e : ScriptError} {sig pubkey : Bytes}

theorem accountsFor_of_isPlain (h : e.isPlain = true) : flags.AccountsFor e := by
  constructor <;> rintro rfl <;> cases h

theorem accountsFor_sigNullDummy (h : flags.has .nullDummy = true) :
    flags.AccountsFor .sigNullDummy := by
  constructor <;> simp [h]

/-- Each rule about a signature is looked at only under its flags. -/
theorem accountsFor_of_checkSignatureEncoding (h : checkSignatureEncoding flags sig = .error e) :
    flags.AccountsFor e := by
  unfold checkSignatureEncoding at h
  split at h
  · cases h
  split at h
  · next hrule =>
    cases h
    have hflag : flags.has .derSig = true ∨ flags.has .lowS = true ∨ flags.has .strictEnc = true := by
      simpa only [intersects_strictDer, Bool.or_eq_true, or_assoc] using
        (Bool.and_eq_true_iff.1 hrule).1
    constructor <;> simp [hflag]
  split at h
  · next hrule =>
    cases h
    have hflag := (Bool.and_eq_true_iff.1 hrule).1
    constructor <;> simp [hflag]
  split at h
  · next hrule =>
    cases h
    have hflag := (Bool.and_eq_true_iff.1 hrule).1
    constructor <;> simp [hflag]
  · cases h

/-- The form of a key is refused only under the flag that asks for it. -/
theorem accountsFor_of_checkKeyEncoding (h : checkKeyEncoding flags pubkey = .error e) :
    flags.AccountsFor e := by
  unfold checkKeyEncoding at h
  split at h
  · next hrule =>
    cases h
    have hflag := (Bool.and_eq_true_iff.1 hrule).1
    constructor <;> simp [hflag]
  · cases h

end Flags

/-- The error is one of the encoding of a signature or a key. -/
def ScriptError.isEncoding : ScriptError → Bool
  | sigDer | sigHighS | sigHashType | pubkeyType => true
  | _ => false

theorem isEncoding_of_checkSignatureEncoding {flags : Flags} {sig : Bytes} {e : ScriptError}
    (h : checkSignatureEncoding flags sig = .error e) : e.isEncoding = true := by
  unfold checkSignatureEncoding at h
  split at h
  · cases h
  split at h
  · cases h
    rfl
  split at h
  · cases h
    rfl
  split at h <;> cases h
  rfl

theorem isEncoding_of_checkKeyEncoding {flags : Flags} {pubkey : Bytes} {e : ScriptError}
    (h : checkKeyEncoding flags pubkey = .error e) : e.isEncoding = true := by
  unfold checkKeyEncoding at h
  split at h <;> cases h
  rfl

end SpendCheck
