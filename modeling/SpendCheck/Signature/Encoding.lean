import SpendCheck.Policy.Flags
import SpendCheck.Policy.ScriptError
import SpendCheck.Signature.Der

namespace SpendCheck

/-- Half the group order in 32 big-endian bytes. -/
def halfOrderBytes : Bytes :=
  [0x7f, 0xff, 0xff, 0xff, 0xff, 0xff, 0xff, 0xff, 0xff, 0xff, 0xff, 0xff, 0xff, 0xff, 0xff, 0xff,
    0x5d, 0x57, 0x6e, 0x73, 0x57, 0xa4, 0x50, 0x1d, 0xdf, 0xe9, 0x2f, 0x46, 0x68, 0x1b, 0x20, 0xa0]

/-- The second integer of a signature, by the length bytes, if it lies inside. -/
def componentS? (sig : Bytes) : Option Bytes := do
  let start := 6 + (← StrictDer.sizeR? sig)
  let (s, _) ← Bytes.splitAt? (← StrictDer.sizeS? sig) (sig.drop start)
  return s

/-- A big-endian number is positive and at most half the group order: compared
    byte by byte, after leading zeros are dropped. -/
def isLow (s : Bytes) : Bool :=
  let significant := s.dropWhile (· == 0)
  !significant.isEmpty && significant.length ≤ 32 &&
    !decide (halfOrderBytes < Bytes.padLeft 32 significant)

/-- The second integer of a signature is positive and at most half the order. -/
def hasLowS (sig : Bytes) : Bool :=
  (componentS? sig).any isLow

/-- The last byte is one of the three hash types, perhaps with the bit that lets
    others add inputs. -/
def hasDefinedHashType (sig : Bytes) : Bool :=
  match sig.getLast? with
  | none => false
  | some last =>
    let base := last &&& ~~~0x80
    1 ≤ base && base ≤ 3

/-- A compressed or an uncompressed key, by prefix and length alone. -/
def hasDefinedKeyForm (pubkey : Bytes) : Bool :=
  match pubkey.head? with
  | none => false
  | some first =>
    if first = 0x02 ∨ first = 0x03 then pubkey.length == 33
    else if first = 0x04 then pubkey.length == 65
    else false

/-- The rules that the flags set for a signature followed by a hash type. The
    empty signature keeps them all. -/
def checkSignatureEncoding (flags : Flags) (sig : Bytes) : Except ScriptError Unit :=
  if sig.isEmpty then .ok ()
  else if flags.intersects (Flag.derSig.mask ||| Flag.lowS.mask ||| Flag.strictEnc.mask) &&
      !StrictDer.isStrict sig then
    .error .sigDer
  else if flags.has .lowS && !hasLowS sig then .error .sigHighS
  else if flags.has .strictEnc && !hasDefinedHashType sig then .error .sigHashType
  else .ok ()

/-- The rules that the flags set for a public key. -/
def checkKeyEncoding (flags : Flags) (pubkey : Bytes) : Except ScriptError Unit :=
  if flags.has .strictEnc && !hasDefinedKeyForm pubkey then .error .pubkeyType else .ok ()

/-- A rule in front of others passes if its flags are not set or its property
    holds. -/
theorem rule_eq_ok_iff {flagged holds : Bool} {e : ScriptError} {others : Except ScriptError Unit} :
    (if flagged && !holds then .error e else others) = .ok () ↔
      (flagged = true → holds = true) ∧ others = .ok () := by
  cases flagged <;> cases holds <;> simp

/-- Each rule asks its property of the signature only where its flags are set. -/
theorem checkSignatureEncoding_eq_ok_iff {flags : Flags} {sig : Bytes} :
    checkSignatureEncoding flags sig = .ok () ↔ sig = [] ∨
      ((flags.intersects (Flag.derSig.mask ||| Flag.lowS.mask ||| Flag.strictEnc.mask) = true →
          StrictDer.isStrict sig = true) ∧
        (flags.has .lowS = true → hasLowS sig = true) ∧
        (flags.has .strictEnc = true → hasDefinedHashType sig = true)) := by
  unfold checkSignatureEncoding
  cases sig with
  | nil => simp
  | cons b rest =>
    simp only [List.isEmpty_cons, Bool.false_eq_true, if_false, rule_eq_ok_iff, and_true,
      reduceCtorEq, false_or]

theorem checkKeyEncoding_eq_ok_iff {flags : Flags} {pubkey : Bytes} :
    checkKeyEncoding flags pubkey = .ok () ↔
      (flags.has .strictEnc = true → hasDefinedKeyForm pubkey = true) := by
  unfold checkKeyEncoding
  simp only [rule_eq_ok_iff, and_true]

end SpendCheck
