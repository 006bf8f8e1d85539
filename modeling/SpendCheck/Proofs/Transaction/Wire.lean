import SpendCheck.Bytes.Digits
import SpendCheck.Transaction.Wire

namespace SpendCheck.Wire

variable {α β : Type}

/-- A reader takes exactly the encodings of the valid values: it takes each of
them, whatever follows, and it takes nothing else. -/
def Exact (reader : Reader α) (encode : α → Bytes) (valid : α → Prop) : Prop :=
  ∀ bytes a rest, reader bytes = .ok (a, rest) ↔ valid a ∧ bytes = encode a ++ rest

/-- One reader takes what the other one leaves. -/
theorem bind_eq_ok_iff {first : Reader α} {next : α → Reader β} {bytes rest : Bytes} {b : β} :
    (first >>= next) bytes = .ok (b, rest) ↔
      ∃ a mid, first bytes = .ok (a, mid) ∧ next a mid = .ok (b, rest) := by
  change StateT.bind first next bytes = .ok (b, rest) ↔ _
  unfold StateT.bind
  cases hfirst : first bytes with
  | error e => simp [bind, Except.bind]
  | ok taken =>
    obtain ⟨a, mid⟩ := taken
    simp [bind, Except.bind]

theorem pure_eq_ok_iff {a b : α} {bytes rest : Bytes} :
    (pure a : Reader α) bytes = .ok (b, rest) ↔ a = b ∧ bytes = rest := by
  change (Except.ok (a, bytes) : Except Error (α × Bytes)) = .ok (b, rest) ↔ _
  simp

/-- A given number of bytes is what stands in front of the rest. -/
theorem readFixed_eq_ok_iff {count : Nat} {bytes rest : Bytes}
    {first : { taken : Bytes // taken.length = count }} :
    readFixed count bytes = .ok (first, rest) ↔ bytes = first.val ++ rest := by
  constructor
  · intro h
    unfold readFixed at h
    split at h
    · cases h
    · next hsplit =>
      cases h
      exact (Bytes.splitAt?_eq_some_iff.1 hsplit).1
  · rintro rfl
    exact readFixed_append first.val first.property rest

/-- A number of a given width is read from its only form of that width. -/
theorem readNat_eq_ok_iff {width n : Nat} {bytes rest : Bytes} :
    readNat width bytes = .ok (n, rest) ↔ n < 256 ^ width ∧ bytes = Bytes.ofNatLE width n ++ rest := by
  unfold readNat
  simp only [bind_eq_ok_iff, pure_eq_ok_iff, readFixed_eq_ok_iff]
  constructor
  · rintro ⟨⟨taken, rfl⟩, mid, rfl, rfl, rfl⟩
    exact ⟨Bytes.toNatLE_lt taken, by rw [Bytes.ofNatLE_toNatLE]⟩
  · rintro ⟨hlt, rfl⟩
    exact ⟨⟨Bytes.ofNatLE width n, Bytes.length_ofNatLE width n⟩, rest, rfl,
      Bytes.toNatLE_ofNatLE hlt, rfl⟩

/-- A number is taken if it is not too small for its width. -/
theorem readAtLeast_eq_ok_iff {least width n : Nat} {bytes rest : Bytes} :
    readAtLeast least width bytes = .ok (n, rest) ↔
      least ≤ n ∧ n < 256 ^ width ∧ bytes = Bytes.ofNatLE width n ++ rest := by
  unfold readAtLeast
  simp only [bind_eq_ok_iff, readNat_eq_ok_iff]
  constructor
  · rintro ⟨count, mid, ⟨hlt, rfl⟩, hcount⟩
    by_cases hshort : count < least
    · rw [if_pos hshort] at hcount
      cases hcount
    · rw [if_neg hshort] at hcount
      obtain ⟨rfl, rfl⟩ := pure_eq_ok_iff.1 hcount
      exact ⟨Nat.not_lt.1 hshort, hlt, rfl⟩
  · rintro ⟨hleast, hlt, rfl⟩
    refine ⟨n, rest, ⟨hlt, rfl⟩, ?_⟩
    rw [if_neg (Nat.not_lt.2 hleast)]
    exact pure_eq_ok_iff.2 ⟨rfl, rfl⟩

/-- A marker byte tells the width of the count behind it. -/
theorem compactSize_of_small {n : Nat} (h : n < 0xfd) : compactSize n = Bytes.ofNatLE 1 n :=
  if_pos h

theorem compactSize_of_two {n : Nat} (hlow : 0xfd ≤ n) (hhigh : n < 256 ^ 2) :
    compactSize n = Bytes.ofNatLE 1 0xfd ++ Bytes.ofNatLE 2 n := by
  rw [compactSize, if_neg (by omega), if_pos (by omega)]
  rfl

theorem compactSize_of_four {n : Nat} (hlow : 0x10000 ≤ n) (hhigh : n < 256 ^ 4) :
    compactSize n = Bytes.ofNatLE 1 0xfe ++ Bytes.ofNatLE 4 n := by
  rw [compactSize, if_neg (by omega), if_neg (by omega), if_pos (by omega)]
  rfl

theorem compactSize_of_eight {n : Nat} (hlow : 0x100000000 ≤ n) :
    compactSize n = Bytes.ofNatLE 1 0xff ++ Bytes.ofNatLE 8 n := by
  rw [compactSize, if_neg (by omega), if_neg (by omega), if_neg (by omega)]
  rfl

/-- Counts are read from their shortest form only. -/
theorem readCompactSize_exact : Exact readCompactSize compactSize (· < 2 ^ 64) := by
  intro bytes n rest
  unfold readCompactSize
  simp only [bind_eq_ok_iff, readNat_eq_ok_iff]
  constructor
  · rintro ⟨marker, mid, ⟨hmarker, rfl⟩, h⟩
    by_cases hsmall : marker < 0xfd
    · rw [if_pos hsmall] at h
      obtain ⟨rfl, rfl⟩ := pure_eq_ok_iff.1 h
      exact ⟨by omega, by rw [compactSize_of_small hsmall]⟩
    rw [if_neg hsmall] at h
    by_cases htwo : marker = 0xfd
    · subst htwo
      obtain ⟨hlow, hhigh, rfl⟩ := readAtLeast_eq_ok_iff.1 h
      exact ⟨by omega, by rw [compactSize_of_two hlow hhigh, List.append_assoc]⟩
    rw [if_neg htwo] at h
    by_cases hfour : marker = 0xfe
    · subst hfour
      obtain ⟨hlow, hhigh, rfl⟩ := readAtLeast_eq_ok_iff.1 h
      exact ⟨by omega, by rw [compactSize_of_four hlow hhigh, List.append_assoc]⟩
    · rw [if_neg hfour] at h
      obtain rfl : marker = 0xff := by omega
      obtain ⟨hlow, hhigh, rfl⟩ := readAtLeast_eq_ok_iff.1 h
      exact ⟨by omega, by rw [compactSize_of_eight hlow, List.append_assoc]⟩
  · rintro ⟨hlt, rfl⟩
    by_cases hsmall : n < 0xfd
    · refine ⟨n, rest, ⟨by omega, by rw [compactSize_of_small hsmall]⟩, ?_⟩
      rw [if_pos hsmall]
      exact pure_eq_ok_iff.2 ⟨rfl, rfl⟩
    by_cases htwo : n < 256 ^ 2
    · have hlow : 0xfd ≤ n := by omega
      refine ⟨0xfd, Bytes.ofNatLE 2 n ++ rest, ⟨by decide, ?_⟩, ?_⟩
      · rw [compactSize_of_two hlow htwo, List.append_assoc]
      · exact readAtLeast_eq_ok_iff.2 ⟨hlow, htwo, rfl⟩
    by_cases hfour : n < 256 ^ 4
    · have hlow : 0x10000 ≤ n := by omega
      refine ⟨0xfe, Bytes.ofNatLE 4 n ++ rest, ⟨by decide, ?_⟩, ?_⟩
      · rw [compactSize_of_four hlow hfour, List.append_assoc]
      · exact readAtLeast_eq_ok_iff.2 ⟨hlow, hfour, rfl⟩
    · have hlow : 0x100000000 ≤ n := by omega
      refine ⟨0xff, Bytes.ofNatLE 8 n ++ rest, ⟨by decide, ?_⟩, ?_⟩
      · rw [compactSize_of_eight hlow, List.append_assoc]
      · exact readAtLeast_eq_ok_iff.2 ⟨hlow, by omega, rfl⟩

/-- A byte string is read behind its length, and only behind its length in the shortest form. -/
theorem readSized_exact : Exact readSized sized (·.length < 2 ^ 64) := by
  intro bytes taken rest
  unfold readSized
  simp only [bind_eq_ok_iff, pure_eq_ok_iff, readFixed_eq_ok_iff, readCompactSize_exact _ _ _]
  constructor
  · rintro ⟨count, mid, ⟨hlt, rfl⟩, ⟨first, rfl⟩, _, rfl, rfl, rfl⟩
    exact ⟨hlt, by rw [sized, List.append_assoc]⟩
  · rintro ⟨hlt, rfl⟩
    exact ⟨taken.length, taken ++ rest, ⟨hlt, by rw [sized, List.append_assoc]⟩, ⟨taken, rfl⟩, rest,
      rfl, rfl, rfl⟩

/-- As many items are read as are asked for, and each from its own encoding. -/
theorem readMany_eq_ok_iff {item : Reader α} {encode : α → Bytes} {valid : α → Prop}
    (hitem : Exact item encode valid) {count : Nat} {bytes rest : Bytes} {items : List α} :
    readMany item count bytes = .ok (items, rest) ↔
      items.length = count ∧ (∀ a ∈ items, valid a) ∧ bytes = items.flatMap encode ++ rest := by
  induction count generalizing bytes rest items with
  | zero =>
    simp only [readMany, pure_eq_ok_iff]
    constructor
    · rintro ⟨rfl, rfl⟩
      simp
    · rintro ⟨hlength, _, rfl⟩
      obtain rfl := List.length_eq_zero_iff.1 hlength
      simp
  | succ count ih =>
    simp only [readMany, bind_eq_ok_iff, pure_eq_ok_iff, hitem _ _ _, ih]
    constructor
    · rintro ⟨first, mid, ⟨hfirst, rfl⟩, others, _, ⟨rfl, hothers, rfl⟩, rfl, rfl⟩
      exact ⟨rfl, by simpa using ⟨hfirst, hothers⟩, by simp⟩
    · rintro ⟨hlength, hvalid, rfl⟩
      cases items with
      | nil => cases hlength
      | cons first others =>
        have hothers : ∀ a ∈ others, valid a := fun a ha => hvalid a (List.mem_cons_of_mem first ha)
        exact ⟨first, others.flatMap encode ++ rest, ⟨hvalid first (by simp), by simp⟩, others, rest,
          ⟨Nat.succ.inj hlength, hothers, rfl⟩, rfl, rfl⟩

/-- Items are read behind their number, and only behind their number in the shortest form. -/
theorem readCounted_exact {item : Reader α} {encode : α → Bytes} {valid : α → Prop}
    (hitem : Exact item encode valid) :
    Exact (readCounted item) (counted encode)
      (fun items => items.length < 2 ^ 64 ∧ ∀ a ∈ items, valid a) := by
  intro bytes items rest
  unfold readCounted
  simp only [bind_eq_ok_iff, readCompactSize_exact _ _ _, readMany_eq_ok_iff hitem]
  constructor
  · rintro ⟨count, mid, ⟨hlt, rfl⟩, rfl, hvalid, rfl⟩
    exact ⟨⟨hlt, hvalid⟩, by rw [counted, List.append_assoc]⟩
  · rintro ⟨⟨hlt, hvalid⟩, rfl⟩
    exact ⟨items.length, items.flatMap encode ++ rest, ⟨hlt, by rw [counted, List.append_assoc]⟩, rfl,
      hvalid, rfl⟩

/-- Encodings that are read exactly can be told apart, with whatever follows. -/
theorem Exact.append_inj {reader : Reader α} {encode : α → Bytes} {valid : α → Prop}
    (h : Exact reader encode valid) {a b : α} {restA restB : Bytes} (ha : valid a) (hb : valid b)
    (heq : encode a ++ restA = encode b ++ restB) : a = b ∧ restA = restB := by
  have hreadA : reader (encode a ++ restA) = .ok (a, restA) := (h _ a restA).2 ⟨ha, rfl⟩
  have hreadB : reader (encode b ++ restB) = .ok (b, restB) := (h _ b restB).2 ⟨hb, rfl⟩
  rw [heq, hreadB] at hreadA
  cases hreadA
  exact ⟨rfl, rfl⟩

end SpendCheck.Wire
