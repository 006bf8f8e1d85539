import SpendCheck.Proofs.Script.Number

namespace SpendCheck.Number

/-- No byte is there without need: there is none, or the last one has a bit besides the sign,
or the one before it has its high bit set, so that the sign needs a byte of its own. -/
def IsShortest (bytes : Bytes) : Prop :=
  bytes = [] ∨ (∃ last ∈ bytes.getLast?, last &&& 0x7f ≠ 0) ∨
    ∃ before ∈ bytes.dropLast.getLast?, before &&& 0x80 ≠ 0

instance : DecidablePred IsShortest :=
  fun _ => inferInstanceAs (Decidable (_ ∨ _ ∨ _))

variable {b c last : UInt8} {bytes rest : Bytes}

theorem isShortest_singleton_iff : IsShortest [last] ↔ last &&& 0x7f ≠ 0 := by
  simp [IsShortest]

theorem isShortest_pair_iff : IsShortest [b, last] ↔ last &&& 0x7f ≠ 0 ∨ b &&& 0x80 ≠ 0 := by
  simp [IsShortest]

/-- The end of a form decides, two bytes of which are enough. -/
theorem isShortest_cons_cons_iff (h : rest ≠ []) :
    IsShortest (b :: c :: rest) ↔ IsShortest (c :: rest) := by
  simp only [IsShortest, List.cons_ne_nil, false_or, List.getLast?_cons_of_ne_nil (List.cons_ne_nil c rest),
    List.dropLast_cons_of_ne_nil (List.cons_ne_nil c rest), List.dropLast_cons_of_ne_nil h,
    List.getLast?_cons_of_ne_nil (List.cons_ne_nil c rest.dropLast)]

theorem and_0x7f_eq_zero_iff : ∀ b : UInt8, b &&& 0x7f = 0 ↔ b = 0 ∨ b = 0x80 := by
  decide +kernel

/-- With a byte in front a form is shortest also where it is a bare sign, for which this byte
has no room. -/
theorem isShortest_cons_iff (hrest : rest ≠ []) :
    IsShortest (b :: rest) ↔ IsShortest rest ∨ (rest = [0] ∨ rest = [0x80]) ∧ b &&& 0x80 ≠ 0 := by
  cases rest with
  | nil => exact absurd rfl hrest
  | cons c others =>
    obtain rfl | hothers := eq_or_ne others []
    · have hsign := and_0x7f_eq_zero_iff c
      simp only [isShortest_pair_iff, isShortest_singleton_iff, List.cons.injEq, and_true, ← hsign]
      tauto
    · simp [isShortest_cons_cons_iff hothers, hothers]

theorem isShortest_sign_digit : ∀ b : UInt8, b ≠ 0 → ∀ negative : Bool,
    IsShortest (sign negative [b]) := by
  decide +kernel

/-- Digits have no zero on top, and the sign takes a byte only where they leave no bit for it. -/
theorem isShortest_sign_digits (negative : Bool) (n : Nat) : IsShortest (sign negative (digits n)) := by
  induction n using digits_induction with
  | zero =>
    rw [digits_zero]
    exact .inl rfl
  | digit n hpositive h =>
    rw [sign_digits_of_lt hpositive h]
    exact isShortest_sign_digit _ (ofNat_ne_zero hpositive h) negative
  | more n hlarge hquotient ih =>
    rw [sign_digits_of_le hlarge]
    exact (isShortest_cons_iff (sign_ne_nil (digits_ne_nil hquotient))).2 (.inl ih)

theorem isShortest_encode (v : Int) : IsShortest (encode v) :=
  isShortest_sign_digits _ _

/-! A shortest form is built again from its sign and its magnitude, which is not zero
unless the form is empty. -/

theorem sign_digits_magnitude_singleton : ∀ last : UInt8, last &&& 0x7f ≠ 0 →
    0 < magnitude [last] ∧ sign (isNegative [last]) (digits (magnitude [last])) = [last] := by
  decide +kernel

/-- A last byte that holds only the sign is put behind a byte without room for it. -/
theorem sign_digits_magnitude_pair (hb : b &&& 0x80 ≠ 0) (hrest : rest = [0] ∨ rest = [0x80]) :
    0 < magnitude (b :: rest) ∧
      sign (isNegative (b :: rest)) (digits (magnitude (b :: rest))) = b :: rest := by
  have hpositive : 0 < b.toNat := by
    rw [Nat.pos_iff_ne_zero]
    intro hzero
    obtain rfl : b = 0 := UInt8.toNat_inj.1 hzero
    exact hb rfl
  have hne : rest ≠ [] := by
    obtain rfl | rfl := hrest <;> exact List.cons_ne_nil _ _
  have hmagnitude : magnitude (b :: rest) = b.toNat := by
    obtain rfl | rfl := hrest <;> rfl
  rw [hmagnitude, isNegative_cons hne, sign_digits_of_lt hpositive b.toNat_lt, UInt8.ofNat_toNat, sign,
    if_pos hb]
  refine ⟨hpositive, ?_⟩
  obtain rfl | rfl := hrest <;> rfl

/-- A form without a needless byte is the one that is written for its number. -/
theorem IsShortest.sign_digits_magnitude (h : IsShortest bytes) (hne : bytes ≠ []) :
    0 < magnitude bytes ∧ sign (isNegative bytes) (digits (magnitude bytes)) = bytes := by
  induction bytes with
  | nil => exact absurd rfl hne
  | cons b rest ih =>
    obtain rfl | hrest := eq_or_ne rest []
    · exact sign_digits_magnitude_singleton b (isShortest_singleton_iff.1 h)
    obtain hshort | ⟨hsign, hb⟩ := (isShortest_cons_iff hrest).1 h
    · obtain ⟨hpositive, hform⟩ := ih hshort hrest
      rw [magnitude_cons hrest, isNegative_cons hrest, sign_digits_of_le (by omega),
        Bytes.ofNat_toNat_add, Bytes.toNat_add_div, hform]
      exact ⟨by omega, rfl⟩
    · exact sign_digits_magnitude_pair hb hsign

/-- The number of a form has this form as its own only if the form is the shortest one. -/
theorem encode_value_eq_iff : encode (value bytes) = bytes ↔ IsShortest bytes := by
  constructor
  · intro h
    rw [← h]
    exact isShortest_encode _
  · intro h
    obtain rfl | hne := eq_or_ne bytes []
    · simp [encode, value, isNegative, magnitude, sign]
    · obtain ⟨hpositive, hform⟩ := h.sign_digits_magnitude hne
      have hnegative : decide (value bytes < 0) = isNegative bytes := by
        unfold value
        split
        · next hsign =>
          rw [hsign]
          exact decide_eq_true (by omega)
        · next hsign =>
          rw [Bool.eq_false_iff.2 hsign]
          exact decide_eq_false (by omega)
      rw [encode, hnegative, natAbs_value, hform]

theorem length_encode_value_le (bytes : Bytes) : (encode (value bytes)).length ≤ bytes.length := by
  obtain rfl | hne := eq_or_ne bytes []
  · exact (encode_value_eq_iff.2 (.inl rfl)).symm ▸ Nat.le_refl _
  · rw [length_encode_le_iff (List.length_pos_iff.2 hne), natAbs_value]
    exact magnitude_lt hne

end SpendCheck.Number
