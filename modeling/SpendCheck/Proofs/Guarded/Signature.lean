import Mathlib.Data.List.Basic
import SpendCheck.Proofs.Bytes.BigEndian
import SpendCheck.Proofs.Guarded.Access
import SpendCheck.Proofs.Policy.Admission
import SpendCheck.Signature.Verification

namespace SpendCheck.Guarded

open Checked

/-! Signatures are read by position. What has been read so far bounds the next position. -/

/-- The integer of a given size that begins at a position is not empty, not negative, and
not longer than necessary. -/
def isMinimalInteger (sig : Bytes) (start size : Nat) : Checked Bool := do
  if size = 0 then return false
  if (← get sig start) &&& 0x80 ≠ 0 then return false
  if 1 < size then
    if (← get sig start) = 0 then return (← get sig (start + 1)) &&& 0x80 != 0
  return true

/-- A signature followed by a hash type has the strict form. -/
def isStrict (sig : Bytes) : Checked Bool := do
  if sig.length < 9 ∨ 73 < sig.length then return false
  if (← get sig 0) ≠ 0x30 then return false
  if (← get sig 1).toNat ≠ (← difference sig.length 3) then return false
  let sizeR := (← get sig 3).toNat
  if sig.length ≤ 5 + sizeR then return false
  let sizeS := (← get sig (5 + sizeR)).toNat
  if sizeR + sizeS + 7 ≠ sig.length then return false
  if (← get sig 2) ≠ 0x02 then return false
  if !(← isMinimalInteger sig 4 sizeR) then return false
  if (← get sig (sizeR + 4)) ≠ 0x02 then return false
  isMinimalInteger sig (sizeR + 6) sizeS

variable {sig : Bytes}

/-- Both readings stop where a test fails. -/
theorem exists_answer_test {fails : Prop} [Decidable fails] {next? : Option Bool} {next : Checked Bool}
    (h : ¬fails → ∃ answer, next? = some answer ∧ next = .ok answer) :
    ∃ answer, (if fails then pure false else next?) = some answer ∧
      (if fails then pure false else next) = .ok answer := by
  by_cases hfails : fails
  · rw [if_pos hfails, if_pos hfails]
    exact ⟨false, rfl, rfl⟩
  · rw [if_neg hfails, if_neg hfails]
    exact h hfails

/-- An integer that ends in front of the last byte of a signature is read inside of it. -/
theorem isMinimalInteger_eq_ok (start size : Nat) (h : start + size < sig.length) :
    ∃ minimal, StrictDer.isMinimalInteger? sig start size = some minimal ∧
      isMinimalInteger sig start size = .ok minimal := by
  have h0 : start < sig.length := by omega
  unfold StrictDer.isMinimalInteger? isMinimalInteger
  refine exists_answer_test fun hempty => ?_
  simp only [List.getElem?_eq_getElem h0, get_eq_ok h0, ok_bind, Option.bind_eq_bind, Option.bind_some]
  refine exists_answer_test fun _ => ?_
  by_cases hone : size = 1
  · exact ⟨true, by rw [if_pos (.inl hone)]; rfl, by rw [if_neg (by omega)]; rfl⟩
  have h1 : start + 1 < sig.length := by omega
  have hlong : 1 < size := by omega
  simp only [List.getElem?_eq_getElem h1, get_eq_ok h1, hone, hlong, false_or, if_true, ok_bind,
    Option.bind_some]
  by_cases hzero : sig[start] = 0
  · exact ⟨sig[start + 1] &&& 0x80 != 0, if_neg (not_not.2 hzero), if_pos hzero⟩
  · exact ⟨true, if_pos hzero, if_neg hzero⟩

/-- Both readings give an answer for every byte string, and it is the same one. -/
theorem exists_verdict (sig : Bytes) :
    ∃ strict, StrictDer.verdict? sig = some strict ∧ isStrict sig = .ok strict := by
  unfold isStrict StrictDer.verdict? StrictDer.sizeS? StrictDer.sizeR?
  refine exists_answer_test fun hlength => ?_
  have h0 : 0 < sig.length := by omega
  have h1 : 1 < sig.length := by omega
  have h2 : 2 < sig.length := by omega
  have h3 : 3 < sig.length := by omega
  have hdifference : difference sig.length 3 = .ok (sig.length - 3) := difference_eq_ok (by omega)
  simp only [List.getElem?_eq_getElem h0, List.getElem?_eq_getElem h1, List.getElem?_eq_getElem h2,
    List.getElem?_eq_getElem h3, get_eq_ok h0, get_eq_ok h1, get_eq_ok h2, get_eq_ok h3, hdifference,
    ok_bind, Option.bind_eq_bind, Option.bind_some, Option.map_some]
  refine exists_answer_test fun _ => exists_answer_test fun _ => exists_answer_test fun hinside => ?_
  -- the length byte of the second integer is read before the sizes are compared
  have hlengthS : 5 + sig[3].toNat < sig.length := Nat.not_le.1 hinside
  simp only [List.getElem?_eq_getElem hlengthS, get_eq_ok hlengthS, ok_bind, Option.bind_some,
    Option.map_some]
  refine exists_answer_test fun hsizes => exists_answer_test fun _ => ?_
  have htagS : sig[3].toNat + 4 < sig.length := by omega
  obtain ⟨minimalR, hminimalR?, hminimalR⟩ :=
    @isMinimalInteger_eq_ok sig 4 sig[3].toNat (by omega)
  obtain ⟨minimalS, hminimalS?, hminimalS⟩ :=
    @isMinimalInteger_eq_ok sig (sig[3].toNat + 6) sig[5 + sig[3].toNat].toNat (by omega)
  simp only [List.getElem?_eq_getElem htagS, get_eq_ok htagS, hminimalR?, hminimalR, hminimalS?, hminimalS,
    ok_bind, Option.bind_some]
  cases minimalR with
  | false => exact ⟨false, rfl, rfl⟩
  | true => exact exists_answer_test fun _ => ⟨minimalS, rfl, rfl⟩

theorem isStrict_eq_ok (sig : Bytes) : isStrict sig = .ok (StrictDer.isStrict sig) := by
  obtain ⟨strict, hverdict, hguarded⟩ := exists_verdict sig
  rw [hguarded, StrictDer.isStrict, hverdict]
  cases strict <;> rfl

/-- A big-endian number is positive and at most half the order. -/
def isLow (s : Bytes) : Checked Bool := do
  let significant ← sliceFrom s (s.findIdx (· != 0))
  if significant.isEmpty ∨ 32 < significant.length then return false
  let padding ← difference 32 significant.length
  let copied ← copy (← sliceFrom (List.replicate 32 0) padding) significant
  return !decide (halfOrderBytes < List.replicate padding 0 ++ copied)

/-- The second integer of a signature is positive and at most half the order. The
signature is trusted to have the strict form. -/
def hasLowS (sig : Bytes) : Checked Bool := do
  let sizeR := (← get sig 3).toNat
  let sizeS := (← get sig (5 + sizeR)).toNat
  isLow (← slice sig (6 + sizeR) (6 + sizeR + sizeS))

/-- The rules that the flags set for a signature followed by a hash type. -/
def checkSignatureEncoding (flags : Flags) (sig : Bytes) : Checked (Except ScriptError Unit) := do
  if sig.isEmpty then return .ok ()
  if ← both (flags.intersects (Flag.derSig.mask ||| Flag.lowS.mask ||| Flag.strictEnc.mask))
      (do return !(← isStrict sig)) then
    return .error .sigDer
  if ← both (flags.has .lowS) (do return !(← hasLowS sig)) then return .error .sigHighS
  if flags.has .strictEnc && !hasDefinedHashType sig then return .error .sigHashType
  return .ok ()

/-- The strict form gives both length bytes, and they account for every byte. -/
theorem sizes_of_isStrict (h : StrictDer.isStrict sig = true) :
    ∃ (hlength : 3 < sig.length) (hlengthS : 5 + sig[3].toNat < sig.length),
      sig[3].toNat + sig[5 + sig[3].toNat].toNat + 7 = sig.length := by
  unfold StrictDer.isStrict StrictDer.verdict? StrictDer.sizeS? StrictDer.sizeR? at h
  by_cases hlength : sig.length < 9 ∨ 73 < sig.length
  · simp [hlength] at h
  have h0? := List.getElem?_eq_getElem (show 0 < sig.length by omega)
  have h1? := List.getElem?_eq_getElem (show 1 < sig.length by omega)
  have h3? := List.getElem?_eq_getElem (show 3 < sig.length by omega)
  simp only [if_neg hlength, h0?, h1?, h3?, Option.bind_eq_bind, Option.bind_some, Option.map_some] at h
  refine ⟨by omega, ?_⟩
  by_cases htag : sig[0] = 0x30
  swap
  · simp [htag] at h
  by_cases htotal : sig[1].toNat = sig.length - 3
  swap
  · simp [htag, htotal] at h
  by_cases hinside : sig.length ≤ 5 + sig[3].toNat
  · simp [htag, htotal, hinside] at h
  have hlengthS : 5 + sig[3].toNat < sig.length := Nat.not_le.1 hinside
  refine ⟨hlengthS, ?_⟩
  by_contra hsizes
  simp [htag, htotal, hinside, List.getElem?_eq_getElem hlengthS, hsizes] at h

/-- Up to 32 significant bytes are copied behind zeros. Then the order of the byte strings is
that of the numbers. -/
theorem isLow_eq_ok (s : Bytes) : isLow s = .ok (SpendCheck.isLow s) := by
  have hsignificant : s.dropWhile (· == 0) = s.drop (s.findIdx (· != 0)) :=
    List.dropWhile_eq_drop_findIdx_not
  unfold isLow SpendCheck.isLow
  rw [hsignificant, sliceFrom_eq_ok List.findIdx_le_length, ok_bind]
  generalize s.drop (s.findIdx (· != 0)) = significant
  by_cases hempty : significant.isEmpty
  · simp [hempty]
  by_cases hlong : 32 < significant.length
  · have hshort : ¬significant.length ≤ 32 := Nat.not_le.2 hlong
    simp [hlong, hshort]
  have hshort : significant.length ≤ 32 := Nat.not_lt.1 hlong
  have hzeros : 32 - significant.length ≤ (List.replicate 32 (0 : UInt8)).length :=
    Nat.sub_le 32 significant.length
  have hroom : ((List.replicate 32 (0 : UInt8)).drop (32 - significant.length)).length =
      significant.length := by
    rw [List.length_drop, List.length_replicate]
    omega
  simp only [hempty, hlong, difference_eq_ok hshort, sliceFrom_eq_ok hzeros,
    copy_eq_ok hroom, ok_bind, hshort, decide_true, Bool.not_false, Bool.true_and, Bytes.padLeft]
  rfl

/-- It is the strict form that puts the second integer inside of the signature. -/
theorem hasLowS_eq_ok (h : StrictDer.isStrict sig = true) :
    hasLowS sig = .ok (SpendCheck.hasLowS sig) := by
  obtain ⟨h3, hlengthS, hsizes⟩ := sizes_of_isStrict h
  have hstop : 6 + sig[3].toNat + sig[5 + sig[3].toNat].toNat ≤ sig.length := by omega
  have hroom : sig[5 + sig[3].toNat].toNat ≤ sig.length - (6 + sig[3].toNat) := by omega
  unfold hasLowS SpendCheck.hasLowS componentS? StrictDer.sizeS? StrictDer.sizeR?
  simp only [get_eq_ok h3, get_eq_ok hlengthS, List.getElem?_eq_getElem h3,
    List.getElem?_eq_getElem hlengthS, slice_eq_ok (Nat.le_add_right _ _) hstop, ok_bind,
    Option.bind_eq_bind, Option.bind_some, Option.map_some, Bytes.splitAt?_eq_ite, List.length_drop,
    if_pos hroom, List.drop_take, Nat.add_sub_cancel_left]
  exact isLow_eq_ok _

/-- The rules run the comparison only behind the check of the form that it trusts. -/
theorem checkSignatureEncoding_eq_ok (flags : Flags) (sig : Bytes) :
    checkSignatureEncoding flags sig = .ok (SpendCheck.checkSignatureEncoding flags sig) := by
  unfold checkSignatureEncoding SpendCheck.checkSignatureEncoding
  by_cases hempty : sig.isEmpty
  · simp [hempty]
  generalize hmask : flags.intersects (Flag.derSig.mask ||| Flag.lowS.mask ||| Flag.strictEnc.mask) = formal
  have hform : both formal (do return !(← isStrict sig)) = .ok (formal && !StrictDer.isStrict sig) :=
    both_eq_ok fun _ => by rw [isStrict_eq_ok]; rfl
  simp only [hempty, hform, ok_bind]
  by_cases hrefused : (formal && !StrictDer.isStrict sig) = true
  · simp [hrefused]
  have hlow : both (flags.has .lowS) (do return !(← hasLowS sig)) =
      .ok (flags.has .lowS && !SpendCheck.hasLowS sig) := by
    refine both_eq_ok fun hlowS => ?_
    have hformal : formal = true := hmask ▸ Flags.intersects_of_has (by decide) (by decide) hlowS
    have hstrict : StrictDer.isStrict sig = true := by simpa [hformal] using hrefused
    rw [hasLowS_eq_ok hstrict]
    rfl
  simp only [hrefused, hlow, ok_bind]
  by_cases hhigh : (flags.has .lowS && !SpendCheck.hasLowS sig) = true
  · simp [hhigh]
  · simp only [hhigh]
    cases flags.has .strictEnc && !hasDefinedHashType sig <;> rfl

-- By itself the comparison reads past the end of what does not have the form.
example : hasLowS [0x30] = .error .index := rfl

/-! Keys: the hybrid form is turned into the uncompressed one in a buffer of its own. -/

/-- Reads a public key. -/
def parsePublicKey (bytes : Bytes) : Checked (Option Curve.Point) := do
  match bytes.head? with
  | none => return none
  | some first =>
    if (first = 0x06 ∨ first = 0x07) ∧ bytes.length = 65 then
      if (← get bytes 0) &&& 1 ≠ (← get bytes 64) &&& 1 then return none
      let copied ← copy (List.replicate 65 0) bytes
      let uncompressed ← store copied 0 0x04
      return Curve.parsePublicKey uncompressed
    else return Curve.parsePublicKey bytes

/-- A signature without hash type belongs to a public key and a digest. -/
def verifySignature (der pubkey digest : Bytes) : Checked Bool := do
  match ← parsePublicKey pubkey with
  | none => return false
  | some key =>
    match LaxDer.parse der with
    | none => return false
    | some sig => return Curve.verify key digest.toNatBE sig.normalized

/-- The parity of a big-endian number is that of its last byte. -/
theorem toNatBE_concat_mod_two (front : Bytes) (last : UInt8) :
    Bytes.toNatBE (front ++ [last]) % 2 = last.toNat % 2 := by
  rw [Bytes.toNatBE_concat]
  omega

theorem and_one_eq_iff {a b : UInt8} : a &&& 1 = b &&& 1 ↔ b.toNat % 2 = a.toNat % 2 := by
  rw [← UInt8.toNat_inj, UInt8.toNat_and, UInt8.toNat_and]
  change a.toNat &&& 1 = b.toNat &&& 1 ↔ _
  rw [Nat.and_one_is_mod, Nat.and_one_is_mod, eq_comm]

/-- Of a hybrid key the last byte is read, whose parity is that of the second coordinate. -/
theorem parsePublicKey_eq_ok (bytes : Bytes) :
    parsePublicKey bytes = .ok (Curve.parsePublicKey bytes) := by
  unfold parsePublicKey
  cases bytes with
  | nil => rfl
  | cons first rest =>
    rw [List.head?_cons]
    dsimp only
    by_cases hybrid : (first = 0x06 ∨ first = 0x07) ∧ (first :: rest).length = 65
    swap
    · rw [if_neg hybrid, pure_eq_ok]
    obtain ⟨hfirst, hlength⟩ := hybrid
    have hrest : rest.length = 64 := by simpa using hlength
    obtain ⟨front, last, hlast⟩ : ∃ front last, rest = front ++ [last] := by
      obtain rfl | ⟨front, last, h⟩ := List.eq_nil_or_concat rest
      · cases hrest
      · exact ⟨front, last, by simpa using h⟩
    have hfront : front.length = 63 := by simpa [hlast] using hrest
    have hget : get (first :: rest) 64 = .ok last := by
      rw [get_eq_ok_iff, hlast, ← List.cons_append]
      simp [hfront]
    have hparity : Bytes.toNatBE (rest.drop 32) % 2 = last.toNat % 2 := by
      rw [hlast, List.drop_append_of_le_length (by omega)]
      exact toNatBE_concat_mod_two _ last
    have hfirst2 : ¬(first = 0x02 ∨ first = 0x03) := by
      obtain rfl | rfl := hfirst <;> decide
    have hfirst4 : first ≠ 0x04 := by
      obtain rfl | rfl := hfirst <;> decide
    have hget0 : get (first :: rest) 0 = .ok first := rfl
    have hcopy : copy (List.replicate 65 0) (first :: rest) = .ok (first :: rest) :=
      copy_eq_ok (by rw [List.length_replicate, hlength])
    have hstore : store (first :: rest) 0 0x04 = .ok (0x04 :: rest) := store_eq_ok (Nat.succ_pos _) _
    simp only [hget0, hget, hcopy, hstore, ok_bind, pure_eq_ok,
      Curve.parsePublicKey, hfirst2, hfirst4, hfirst, hrest, hparity, ne_eq, and_one_eq_iff]
    by_cases hsame : last.toNat % 2 = first.toNat % 2
    · simp [hsame]
    · simp [hsame]

theorem verifySignature_eq_ok (der pubkey digest : Bytes) :
    verifySignature der pubkey digest = .ok (SpendCheck.verifySignature der pubkey digest) := by
  unfold verifySignature SpendCheck.verifySignature
  rw [parsePublicKey_eq_ok, ok_bind]
  cases Curve.parsePublicKey pubkey with
  | none => rfl
  | some key =>
    cases LaxDer.parse der with
    | none => rfl
    | some sig => rfl

end SpendCheck.Guarded
