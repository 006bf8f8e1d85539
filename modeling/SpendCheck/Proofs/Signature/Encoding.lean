import SpendCheck.Proofs.Policy.Bits
import SpendCheck.Proofs.Signature.Strict

namespace SpendCheck

variable {flags : Flags} {sig s : Bytes} {e : ScriptError}

theorem toNatBE_halfOrderBytes : halfOrderBytes.toNatBE = (Curve.groupOrder - 1) / 2 := by
  decide

/-- What is longer than the order without its zeros in front is larger, and 32 bytes are
compared as numbers. -/
theorem isLow_eq_true_iff :
    isLow s = true ↔ 1 ≤ s.toNatBE ∧ s.toNatBE ≤ (Curve.groupOrder - 1) / 2 := by
  have hvalue := Bytes.toNatBE_dropWhile_zero s
  unfold isLow
  cases hsignificant : s.dropWhile (· == 0) with
  | nil =>
    rw [hsignificant] at hvalue
    simp [← hvalue]
  | cons first rest =>
    have hfirst : first ≠ 0 := by
      have hhead := List.head_dropWhile_not (· == 0) (l := s) (by simp [hsignificant])
      simpa [hsignificant] using hhead
    rw [hsignificant] at hvalue
    have hle := Bytes.le_toNatBE_cons hfirst rest
    rw [hvalue] at hle
    have hpositive : 1 ≤ s.toNatBE := (Nat.pow_pos (by decide)).trans_le hle
    by_cases hlong : (first :: rest).length ≤ 32
    · have hlength : halfOrderBytes.length = (Bytes.padLeft 32 (first :: rest)).length :=
        (Bytes.length_padLeft hlong).symm
      have hcompare := Bytes.lt_iff_toNatBE_lt hlength
      rw [Bytes.toNatBE_padLeft, hvalue, toNatBE_halfOrderBytes] at hcompare
      simp only [List.isEmpty_cons, Bool.not_false, Bool.true_and, hlong, decide_true, Bool.not_eq_true',
        decide_eq_false_iff_not, hcompare, Nat.not_lt, hpositive, true_and]
    · have hwide : 256 ^ 32 ≤ 256 ^ rest.length :=
        Nat.pow_le_pow_right (by decide) (Nat.le_of_lt_succ (Nat.not_le.1 hlong))
      have hhigh : ¬s.toNatBE ≤ (Curve.groupOrder - 1) / 2 :=
        Nat.not_le.2 (Nat.lt_of_lt_of_le (by decide) (hwide.trans hle))
      simp only [hlong, hhigh, decide_false, Bool.and_false, Bool.false_and, and_false, Bool.false_eq_true]

namespace StrictDer.Parts

variable (parts : Parts)

/-- The second integer is where the length of the first one puts it. -/
theorem componentS?_bytes : componentS? parts.bytes = some parts.s := by
  have hsplit : parts.bytes =
      ([0x30, UInt8.ofNat (4 + parts.r.length + parts.s.length), 0x02, UInt8.ofNat parts.r.length] ++
        parts.r ++ [0x02, UInt8.ofNat parts.s.length]) ++ (parts.s ++ [parts.hashType]) := by
    simp [bytes_eq_layout, layout]
  have hdrop : parts.bytes.drop (6 + parts.r.length) = parts.s ++ [parts.hashType] := by
    rw [hsplit]
    exact List.drop_left' (by simp; omega)
  have hfront : Bytes.splitAt? parts.s.length (parts.s ++ [parts.hashType]) =
      some (parts.s, [parts.hashType]) :=
    Bytes.splitAt?_eq_some_iff.2 ⟨rfl, rfl⟩
  simp only [componentS?, sizeR?_bytes, sizeS?_bytes, hdrop, hfront, Option.bind_eq_bind, Option.bind_some]
  rfl

theorem hasLowS_bytes : hasLowS parts.bytes = true ↔
    1 ≤ parts.s.toNatBE ∧ parts.s.toNatBE ≤ (Curve.groupOrder - 1) / 2 := by
  rw [hasLowS, componentS?_bytes, Option.any_some, isLow_eq_true_iff]

theorem getLast?_bytes : parts.bytes.getLast? = some parts.hashType :=
  List.getLast?_concat

end StrictDer.Parts

/-- A hash type is one of three numbers, perhaps with the bit on top that lets others add
inputs. -/
def IsDefinedHashType (hashType : UInt8) : Prop :=
  hashType &&& ~~~0x80 = 1 ∨ hashType &&& ~~~0x80 = 2 ∨ hashType &&& ~~~0x80 = 3

theorem hasDefinedHashType_eq_true_iff :
    hasDefinedHashType sig = true ↔ ∃ last, sig.getLast? = some last ∧ IsDefinedHashType last := by
  unfold hasDefinedHashType IsDefinedHashType
  cases sig.getLast? with
  | none => simp
  | some last =>
    simp only [Option.some.injEq, exists_eq_left', Bool.and_eq_true, decide_eq_true_iff]
    simp only [UInt8.le_iff_toNat_le, ← UInt8.toNat_inj, UInt8.reduceToNat]
    omega

/-- A rule about signatures that the flags set and the signature breaks, by the error that
reports it. -/
inductive Flags.Refuses (flags : Flags) (sig : Bytes) : ScriptError → Prop
  | sigDer (hflag : flags.has .derSig = true ∨ flags.has .lowS = true ∨ flags.has .strictEnc = true)
      (hform : ∀ parts : StrictDer.Parts, parts.bytes ≠ sig) : Refuses flags sig .sigDer
  | sigHighS (hflag : flags.has .lowS = true) (parts : StrictDer.Parts) (hparts : parts.bytes = sig)
      (hvalue : ¬(1 ≤ parts.s.toNatBE ∧ parts.s.toNatBE ≤ (Curve.groupOrder - 1) / 2)) :
      Refuses flags sig .sigHighS
  | sigHashType (hflag : flags.has .strictEnc = true) (last : UInt8) (hlast : sig.getLast? = some last)
      (htype : ¬IsDefinedHashType last) : Refuses flags sig .sigHashType

namespace Flags

/-- Three flags ask for the strict form, and any of them is enough. -/
theorem refuses_sigDer_iff : flags.Refuses sig .sigDer ↔
    (flags.intersects (Flag.derSig.mask ||| Flag.lowS.mask ||| Flag.strictEnc.mask) &&
      !StrictDer.isStrict sig) = true := by
  rw [intersects_strictDer, Bool.and_eq_true, Bool.or_eq_true, Bool.or_eq_true, or_assoc, Bool.not_eq_true',
    ← Bool.not_eq_true, StrictDer.isStrict_iff_exists_parts, not_exists]
  constructor
  · intro h
    cases h with
    | sigDer hflag hform => exact ⟨hflag, hform⟩
  · rintro ⟨hflag, hform⟩
    exact .sigDer hflag hform

/-- The value is looked at behind the form. -/
theorem refuses_sigHighS_iff (h : ¬flags.Refuses sig .sigDer) :
    flags.Refuses sig .sigHighS ↔ (flags.has .lowS && !hasLowS sig) = true := by
  rw [Bool.and_eq_true, Bool.not_eq_true', ← Bool.not_eq_true]
  constructor
  · intro hrefuses
    cases hrefuses with
    | sigHighS hflag parts hparts hvalue =>
      subst hparts
      exact ⟨hflag, fun hlow => hvalue (parts.hasLowS_bytes.1 hlow)⟩
  · rintro ⟨hflag, hhigh⟩
    by_cases hform : ∃ parts : StrictDer.Parts, parts.bytes = sig
    · obtain ⟨parts, rfl⟩ := hform
      exact .sigHighS hflag parts rfl fun hvalue => hhigh (parts.hasLowS_bytes.2 hvalue)
    · exact absurd (.sigDer (.inr (.inl hflag)) (not_exists.1 hform)) h

/-- The hash type is looked at only under one flag. -/
theorem refuses_sigHashType_iff (hsig : sig ≠ []) : flags.Refuses sig .sigHashType ↔
    (flags.has .strictEnc && !hasDefinedHashType sig) = true := by
  rw [Bool.and_eq_true, Bool.not_eq_true', ← Bool.not_eq_true, hasDefinedHashType_eq_true_iff]
  have hlast := List.getLast?_eq_some_getLast hsig
  constructor
  · intro h
    cases h with
    | sigHashType hflag last hlast htype =>
      refine ⟨hflag, ?_⟩
      rintro ⟨other, hother, hdefined⟩
      rw [hlast, Option.some_inj] at hother
      exact htype (hother ▸ hdefined)
  · rintro ⟨hflag, hundefined⟩
    exact .sigHashType hflag _ hlast fun hdefined => hundefined ⟨_, hlast, hdefined⟩

end Flags

/-- The rules are looked at in order. -/
theorem checkSignatureEncoding_eq_error_iff (hsig : sig ≠ []) :
    checkSignatureEncoding flags sig = .error e ↔
      e = .sigDer ∧ flags.Refuses sig .sigDer ∨
      e = .sigHighS ∧ ¬flags.Refuses sig .sigDer ∧ flags.Refuses sig .sigHighS ∨
      e = .sigHashType ∧ ¬flags.Refuses sig .sigDer ∧ ¬flags.Refuses sig .sigHighS ∧
        flags.Refuses sig .sigHashType := by
  have hempty : ¬sig.isEmpty = true := by simpa using hsig
  rw [checkSignatureEncoding, if_neg hempty]
  by_cases hder : flags.Refuses sig .sigDer
  · rw [if_pos (Flags.refuses_sigDer_iff.1 hder)]
    simp [hder, eq_comm]
  rw [if_neg (mt Flags.refuses_sigDer_iff.2 hder)]
  by_cases hhigh : flags.Refuses sig .sigHighS
  · rw [if_pos ((Flags.refuses_sigHighS_iff hder).1 hhigh)]
    simp [hder, hhigh, eq_comm]
  rw [if_neg (mt (Flags.refuses_sigHighS_iff hder).2 hhigh)]
  by_cases htype : flags.Refuses sig .sigHashType
  · rw [if_pos ((Flags.refuses_sigHashType_iff hsig).1 htype)]
    simp [hder, hhigh, htype, eq_comm]
  · rw [if_neg (mt (Flags.refuses_sigHashType_iff hsig).2 htype)]
    simp [hder, hhigh, htype]

/-- A signature in the strict form keeps the rules if its value and its hash type do. -/
theorem StrictDer.Parts.checkSignatureEncoding_eq_ok_iff (parts : Parts) :
    checkSignatureEncoding flags parts.bytes = .ok () ↔
      (flags.has .lowS = true →
          1 ≤ parts.s.toNatBE ∧ parts.s.toNatBE ≤ (Curve.groupOrder - 1) / 2) ∧
        (flags.has .strictEnc = true → IsDefinedHashType parts.hashType) := by
  have hsig : parts.bytes ≠ [] := List.append_ne_nil_of_right_ne_nil _ (List.cons_ne_nil _ _)
  have htype : hasDefinedHashType parts.bytes = true ↔ IsDefinedHashType parts.hashType := by
    rw [hasDefinedHashType_eq_true_iff, parts.getLast?_bytes]
    simp only [Option.some.injEq, exists_eq_left']
  rw [SpendCheck.checkSignatureEncoding_eq_ok_iff, parts.hasLowS_bytes, htype]
  simp only [hsig, false_or, parts.isStrict_bytes, implies_true, true_and]

/-- The rules are a policy about numbers. A signature that is not empty keeps them exactly if none
of the three flags is set, or if it has the strict form and its S is a number from 1 to half the
order where `LOW_S` asks for that, and its hash type a defined one where `STRICTENC` does. Of the
rules that it breaks, the first one is reported. -/
theorem signature_rules_are_numeric (hsig : sig ≠ []) (flags : Flags) :
    (checkSignatureEncoding flags sig = .ok () ↔
      (flags.has .derSig = false ∧ flags.has .lowS = false ∧ flags.has .strictEnc = false) ∨
      ∃ parts : StrictDer.Parts, parts.bytes = sig ∧
        (flags.has .lowS = true →
          1 ≤ parts.s.toNatBE ∧ parts.s.toNatBE ≤ (Curve.groupOrder - 1) / 2) ∧
        (flags.has .strictEnc = true → IsDefinedHashType parts.hashType)) ∧
    ∀ e, checkSignatureEncoding flags sig = .error e ↔
      e = .sigDer ∧ flags.Refuses sig .sigDer ∨
      e = .sigHighS ∧ ¬flags.Refuses sig .sigDer ∧ flags.Refuses sig .sigHighS ∨
      e = .sigHashType ∧ ¬flags.Refuses sig .sigDer ∧ ¬flags.Refuses sig .sigHighS ∧
        flags.Refuses sig .sigHashType := by
  refine ⟨?_, fun e => checkSignatureEncoding_eq_error_iff hsig⟩
  constructor
  · intro hok
    by_cases hflag : flags.has .derSig = false ∧ flags.has .lowS = false ∧ flags.has .strictEnc = false
    · exact .inl hflag
    · have hintersects : flags.intersects (Flag.derSig.mask ||| Flag.lowS.mask ||| Flag.strictEnc.mask) =
          true := by
        rw [Flags.intersects_strictDer]
        by_contra hnone
        simp only [Bool.not_eq_true, Bool.or_eq_false_iff, and_assoc] at hnone
        exact hflag hnone
      have hrules := (checkSignatureEncoding_eq_ok_iff.1 hok).resolve_left hsig
      obtain ⟨parts, rfl⟩ := StrictDer.isStrict_iff_exists_parts.1 (hrules.1 hintersects)
      exact .inr ⟨parts, rfl, parts.checkSignatureEncoding_eq_ok_iff.1 hok⟩
  · rintro (⟨hder, hlow, hstrict⟩ | ⟨parts, rfl, hkeeps⟩)
    · rw [checkSignatureEncoding_eq_ok_iff]
      simp [Flags.intersects_strictDer, hder, hlow, hstrict]
    · exact parts.checkSignatureEncoding_eq_ok_iff.2 hkeeps

/-- Half the order itself is low. One more is high, and under `STRICTENC` as well that is
reported although the hash type is not defined either. -/
theorem half_order_is_low_and_successor_high :
    Der.sequence [1] halfOrderBytes ++ [1] ≠ [] ∧
    checkSignatureEncoding ⟨Flag.lowS.mask⟩ (Der.sequence [1] halfOrderBytes ++ [1]) = .ok () ∧
    Der.sequence [1] (halfOrderBytes.dropLast ++ [0xa1]) ++ [0x21] ≠ [] ∧
    checkSignatureEncoding ⟨Flag.lowS.mask ||| Flag.strictEnc.mask⟩
      (Der.sequence [1] (halfOrderBytes.dropLast ++ [0xa1]) ++ [0x21]) = .error .sigHighS := by
  let half : StrictDer.Parts := ⟨[1], halfOrderBytes, 1, by decide, by decide, by decide⟩
  let above : StrictDer.Parts :=
    ⟨[1], halfOrderBytes.dropLast ++ [0xa1], 0x21, by decide, by decide, by decide⟩
  have hhalf : half.bytes ≠ [] := by decide
  have habove : above.bytes ≠ [] := by decide
  refine ⟨hhalf, ?_, habove, ?_⟩
  · apply (signature_rules_are_numeric hhalf ⟨Flag.lowS.mask⟩).1.2
    exact .inr ⟨half, rfl, fun _ => by decide, fun hstrict => absurd hstrict (by decide)⟩
  · apply ((signature_rules_are_numeric habove ⟨Flag.lowS.mask ||| Flag.strictEnc.mask⟩).2 .sigHighS).2
    refine .inr (.inl ⟨rfl, ?_, .sigHighS (by decide) above rfl (by decide)⟩)
    intro hrefuses
    cases hrefuses with
    | sigDer _ hform => exact hform above rfl

end SpendCheck
