import SpendCheck.Bytes.Hex
import SpendCheck.Proofs.Text.Words

namespace SpendCheck.Hex

variable {c : Char} {word : List Char} {bytes : Bytes} {value : UInt8}

theorem digit?_digitChar (h : value < 16) : digit? (digitChar value) = some value := by
  have hall : ∀ n < 16, digit? (digitChar (UInt8.ofNat n)) = some (UInt8.ofNat n) := by decide
  simpa using hall value.toNat h

theorem high_lt (b : UInt8) : b / 16 < 16 := by
  have hb := b.toNat_lt
  rw [UInt8.lt_iff_toNat_lt, UInt8.toNat_div]
  simp only [UInt8.reduceToNat]
  omega

theorem low_lt (b : UInt8) : b % 16 < 16 :=
  UInt8.mod_lt b (by decide)

theorem high_low_eq (b : UInt8) : 16 * (b / 16) + b % 16 = b := by
  have hb := b.toNat_lt
  apply UInt8.toNat_inj.1
  simp only [UInt8.toNat_add, UInt8.toNat_mul, UInt8.toNat_div, UInt8.toNat_mod,
    UInt8.reduceToNat]
  omega

theorem encode_cons (b : UInt8) (rest : Bytes) :
    encode (b :: rest) = digitChar (b / 16) :: digitChar (b % 16) :: encode rest :=
  rfl

theorem encode_ne_nil (h : bytes ≠ []) : encode bytes ≠ [] := by
  obtain ⟨b, rest, rfl⟩ := List.exists_cons_of_ne_nil h
  exact List.cons_ne_nil _ _

/-- What is encoded is decoded again, whatever the bytes. -/
theorem decode_encode (bytes : Bytes) : decode (encode bytes) = some bytes := by
  induction bytes with
  | nil => rfl
  | cons b rest ih =>
    simp only [encode_cons, decode, digit?_digitChar (high_lt b), digit?_digitChar (low_lt b), ih,
      high_low_eq b]

theorem exists_digitChar_of_mem_encode (h : c ∈ encode bytes) : ∃ value < 16, c = digitChar value := by
  obtain ⟨b, -, hc⟩ := List.mem_flatMap.1 h
  obtain rfl | hlow := List.mem_cons.1 hc
  · exact ⟨b / 16, high_lt b, rfl⟩
  · exact ⟨b % 16, low_lt b, List.mem_singleton.1 hlow⟩

/-- The letter case of a digit does not matter. -/
theorem digit?_toLower (c : Char) : digit? c.toLower = digit? c := by
  by_cases h : 65 ≤ c.toNat ∧ c.toNat ≤ 90
  · have hall : ∀ n < 91, 65 ≤ n → digit? (Char.ofNat n).toLower = digit? (Char.ofNat n) := by
      decide
    have hc := hall c.toNat (by omega) h.1
    rwa [Char.ofNat_toNat] at hc
  · have hc : c.toLower = c := dif_neg fun hupper => h hupper
    rw [hc]

theorem decode_map_toLower : ∀ word, decode (word.map Char.toLower) = decode word
  | [] => rfl
  | [_] => rfl
  | high :: low :: rest => by
    simp only [List.map_cons, decode, digit?_toLower, decode_map_toLower rest]

/-- The word is the text of the bytes, with letters of either case. -/
def Spells (word : List Char) (bytes : Bytes) : Prop :=
  word.map Char.toLower = encode bytes

instance (word : List Char) (bytes : Bytes) : Decidable (Spells word bytes) :=
  inferInstanceAs (Decidable (word.map Char.toLower = encode bytes))

theorem spells_encode (bytes : Bytes) : Spells (encode bytes) bytes := by
  have hall : ∀ n < 16, (digitChar (UInt8.ofNat n)).toLower = digitChar (UInt8.ofNat n) := by
    decide
  have hlower : ∀ c ∈ encode bytes, c.toLower = id c := by
    intro c hc
    obtain ⟨value, hlt, rfl⟩ := exists_digitChar_of_mem_encode hc
    simpa using hall value.toNat hlt
  exact (List.map_congr_left hlower).trans (List.map_id _)

theorem Spells.decode_eq (h : Spells word bytes) : decode word = some bytes := by
  rw [← decode_map_toLower, h, decode_encode]

theorem toNat_of_isSome_digit? (h : (digit? c).isSome = true) : 0x20 < c.toNat ∧ c.toNat < 0x67 := by
  rw [digit?] at h
  simp only [Char.le_def, UInt32.le_iff_toNat_le] at h
  grind [Char.toNat]

theorem Spells.ne_nil (h : Spells word bytes) (hne : bytes ≠ []) : word ≠ [] := by
  rintro rfl
  exact encode_ne_nil hne h.symm

theorem Spells.isSome_digit? (h : Spells word bytes) (hc : c ∈ word) : (digit? c).isSome = true := by
  have hmem : c.toLower ∈ encode bytes := h ▸ List.mem_map_of_mem hc
  obtain ⟨value, hlt, hvalue⟩ := exists_digitChar_of_mem_encode hmem
  rw [← digit?_toLower, hvalue, digit?_digitChar hlt]
  rfl

theorem isBlank_of_isSome_digit? (h : (digit? c).isSome = true) : Text.isBlank c = false := by
  obtain ⟨hlow, hhigh⟩ := toNat_of_isSome_digit? h
  exact Text.isBlank_of_printable ⟨hlow, by omega⟩

end SpendCheck.Hex
