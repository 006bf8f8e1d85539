import Mathlib.Data.Nat.Digits.Defs
import SpendCheck.Assembly.Reading
import SpendCheck.Proofs.Bytes.Hex

namespace SpendCheck.Assembly

variable {word : List Char} {digits : List Nat} {bytes : Bytes} {c : Char}

/-- The words of a text are read one after the other; the first error ends the reading. -/
theorem readWords_append_eq_bind (before after : List (List Char)) :
    readWords (before ++ after) = do
      let first ← readWords before
      let second ← readWords after
      return first ++ second := by
  induction before with
  | nil =>
    rw [List.nil_append]
    cases readWords after <;> rfl
  | cons word rest ih =>
    simp only [List.cons_append, readWords, ih]
    cases readWord word with
    | error e => rfl
    | ok script =>
      cases readWords rest with
      | error e => rfl
      | ok others =>
        cases readWords after with
        | error e => rfl
        | ok last => exact congrArg Except.ok (List.append_assoc script others last).symm

theorem readWords_singleton_eq (word : List Char) : readWords [word] = readWord word := by
  rw [readWords]
  cases readWord word with
  | error e => rfl
  | ok script => exact congrArg Except.ok (List.append_nil script)

/-- A text is read part by part. If both parts have an error, the one of the first part is
reported. -/
theorem read_append (a b : String) :
    read (a ++ " " ++ b) = do
      let first ← read a
      let second ← read b
      return first ++ second := by
  have hwords : Text.words (a ++ " " ++ b).toList = Text.words a.toList ++ Text.words b.toList := by
    rw [String.toList_append, String.toList_append, List.append_assoc]
    exact Text.words_append_cons a.toList b.toList rfl
  rw [read, hwords]
  exact readWords_append_eq_bind _ _

theorem read_eq_readWord {text : String} (h : Text.IsWord text.toList) :
    read text = readWord text.toList := by
  rw [read, h.words_eq, readWords_singleton_eq]

/-- A decimal word and its value: digits, with or without zeros in front of the
others, perhaps behind a minus sign. -/
inductive IsDecimal : List Char → Int → Prop where
  | natural {digits : List Nat} (hne : digits ≠ []) (hlt : ∀ d ∈ digits, d < 10) :
      IsDecimal (digits.map Nat.digitChar) (Nat.ofDigits 10 digits.reverse : Nat)
  | negated {digits : List Nat} (hne : digits ≠ []) (hlt : ∀ d ∈ digits, d < 10) :
      IsDecimal ('-' :: digits.map Nat.digitChar) (-(Nat.ofDigits 10 digits.reverse : Nat))

theorem foldl_digitChar (hlt : ∀ d ∈ digits, d < 10) (start : Nat) :
    (digits.map Nat.digitChar).foldl (fun value c => 10 * value + (c.toNat - 48)) start =
      digits.foldl (fun value d => d + 10 * value) start := by
  induction digits generalizing start with
  | nil => rfl
  | cons d rest ih =>
    obtain ⟨hd, hrest⟩ := List.forall_mem_cons.1 hlt
    have hvalue : 10 * start + (d.digitChar.toNat - 48) = d + 10 * start := by
      rw [Nat.toNat_digitChar_of_lt_ten hd]
      omega
    rw [List.map_cons, List.foldl_cons, List.foldl_cons, hvalue, ih hrest]

/-- A row of digits is read as the number with these digits, the first one weighing most. -/
theorem natural?_digitChar (hne : digits ≠ []) (hlt : ∀ d ∈ digits, d < 10) :
    natural? (digits.map Nat.digitChar) = some (Nat.ofDigits 10 digits.reverse) := by
  have hword : (!(digits.map Nat.digitChar).isEmpty &&
      (digits.map Nat.digitChar).all Char.isDigit) = true := by
    simpa [hne] using hlt
  rw [natural?, if_pos hword, foldl_digitChar hlt, Nat.ofDigits_eq_foldr, List.foldr_reverse]
  rfl

theorem isDigit_of_mem_digitChar (hlt : ∀ d ∈ digits, d < 10) (hc : c ∈ digits.map Nat.digitChar) :
    c.isDigit = true := by
  obtain ⟨d, hd, rfl⟩ := List.mem_map.1 hc
  rw [Nat.isDigit_digitChar]
  exact decide_eq_true (hlt d hd)

theorem toNat_of_isDigit (h : c.isDigit = true) : 48 ≤ c.toNat ∧ c.toNat ≤ 57 := by
  obtain ⟨hlow, hhigh⟩ := Bool.and_eq_true_iff.1 h
  exact ⟨UInt32.le_iff_toNat_le.1 (of_decide_eq_true hlow),
    UInt32.le_iff_toNat_le.1 (of_decide_eq_true hhigh)⟩

theorem exists_digitChar_of_isDigit (h : c.isDigit = true) : ∃ d < 10, c = Nat.digitChar d := by
  have hall : ∀ n < 58, 48 ≤ n → (n - 48).digitChar = Char.ofNat n := by decide
  obtain ⟨hlow, hhigh⟩ := toNat_of_isDigit h
  refine ⟨c.toNat - 48, by omega, ?_⟩
  rw [hall c.toNat (by omega) hlow, Char.ofNat_toNat]

/-- A row of digits is the numeral of its digits. -/
theorem exists_digits (h : ∀ c ∈ word, c.isDigit = true) :
    ∃ digits : List Nat, (∀ d ∈ digits, d < 10) ∧ word = digits.map Nat.digitChar := by
  induction word with
  | nil => exact ⟨[], fun d hd => (nomatch hd), rfl⟩
  | cons c rest ih =>
    obtain ⟨hc, hrest⟩ := List.forall_mem_cons.1 h
    obtain ⟨d, hd, rfl⟩ := exists_digitChar_of_isDigit hc
    obtain ⟨digits, hdigits, rfl⟩ := ih hrest
    exact ⟨d :: digits, List.forall_mem_cons.2 ⟨hd, hdigits⟩, rfl⟩

/-- A word is a natural number exactly if it is a row of digits. Zeros in front of it count for
nothing. -/
theorem natural?_eq_some_iff {value : Nat} :
    natural? word = some value ↔ ∃ digits : List Nat, digits ≠ [] ∧ (∀ d ∈ digits, d < 10) ∧
      word = digits.map Nat.digitChar ∧ value = Nat.ofDigits 10 digits.reverse := by
  constructor
  · intro h
    have hdigits : word ≠ [] ∧ ∀ c ∈ word, c.isDigit = true := by
      rw [natural?] at h
      split at h
      · simp_all
      · cases h
    obtain ⟨hne, hall⟩ := hdigits
    obtain ⟨digits, hlt, rfl⟩ := exists_digits hall
    have hdigits : digits ≠ [] := mt (congrArg (List.map Nat.digitChar)) hne
    rw [natural?_digitChar hdigits hlt] at h
    exact ⟨digits, hdigits, hlt, rfl, (Option.some.inj h).symm⟩
  · rintro ⟨digits, hne, hlt, rfl, rfl⟩
    exact natural?_digitChar hne hlt

/-- The words that are read as numbers are the decimal words, with their values. -/
theorem decimal?_eq_some_iff {value : Int} : decimal? word = some value ↔ IsDecimal word value := by
  constructor
  · intro h
    rw [decimal?.eq_def] at h
    split at h
    · next rest =>
      cases hn : natural? rest with
      | none =>
        rw [hn] at h
        cases h
      | some n =>
        obtain ⟨digits, hne, hlt, rfl, rfl⟩ := natural?_eq_some_iff.1 hn
        rw [hn] at h
        cases h
        exact .negated hne hlt
    · cases hn : natural? word with
      | none =>
        rw [hn] at h
        cases h
      | some n =>
        obtain ⟨digits, hne, hlt, rfl, rfl⟩ := natural?_eq_some_iff.1 hn
        rw [hn] at h
        cases h
        exact .natural hne hlt
  · rintro (⟨hne, hlt⟩ | ⟨hne, hlt⟩)
    · rw [decimal?]
      · rw [natural?_digitChar hne hlt]
        rfl
      · intro rest hminus
        have hdigit := isDigit_of_mem_digitChar hlt (hminus ▸ List.mem_cons_self)
        cases hdigit
    · rw [decimal?, natural?_digitChar hne hlt]
      rfl

theorem isDigit_of_isAlpha (h : c.isAlpha = true) : c.isDigit = false := by
  apply Bool.eq_false_iff.2
  intro hdigit
  have hhigh : c.val ≤ '9'.val := of_decide_eq_true (Bool.and_eq_true_iff.1 hdigit).2
  obtain hupper | hlower := Bool.or_eq_true_iff.1 h
  · have hlow : 'A'.val ≤ c.val := (of_decide_eq_true hupper).1
    exact absurd (UInt32.le_trans hlow hhigh) (by decide)
  · have hlow : 'a'.val ≤ c.val := of_decide_eq_true (Bool.and_eq_true_iff.1 hlower).1
    exact absurd (UInt32.le_trans hlow hhigh) (by decide)

theorem isBlank_of_isDigit (h : c.isDigit = true) : Text.isBlank c = false := by
  obtain ⟨hlow, hhigh⟩ := toNat_of_isDigit h
  exact Text.isBlank_of_printable ⟨by omega, by omega⟩

theorem IsDecimal.isWord {value : Int} (h : IsDecimal word value) : Text.IsWord word := by
  cases h with
  | natural hne hlt =>
    exact ⟨mt List.map_eq_nil_iff.1 hne,
      fun c hc => isBlank_of_isDigit (isDigit_of_mem_digitChar hlt hc)⟩
  | negated hne hlt =>
    refine ⟨List.cons_ne_nil _ _, List.forall_mem_cons.2 ⟨rfl, ?_⟩⟩
    exact fun c hc => isBlank_of_isDigit (isDigit_of_mem_digitChar hlt hc)

theorem readWord_decimal {value : Int} (h : IsDecimal word value) :
    readWord word =
      if value.natAbs ≤ maxDecimal then .ok (Script.pushNumber value)
      else .error (.decimalOutOfRange (String.ofList word)) := by
  simp only [readWord, decimal?_eq_some_iff.2 h]

theorem natural?_eq_none (hc : c ∈ word) (hdigit : c.isDigit = false) : natural? word = none := by
  rw [natural?, if_neg]
  rw [Bool.and_eq_true, List.all_eq_true]
  exact fun h => Bool.eq_false_iff.1 hdigit (h.2 c hc)

/-- A word with a character that is neither a digit nor a minus sign is no number. -/
theorem decimal?_eq_none (hc : c ∈ word) (hdigit : c.isDigit = false) (hminus : c ≠ '-') :
    decimal? word = none := by
  rw [decimal?.eq_def]
  split
  · rename_i rest
    have hrest : c ∈ rest := (List.mem_cons.1 hc).resolve_left hminus
    rw [natural?_eq_none hrest hdigit]
    rfl
  · rw [natural?_eq_none hc hdigit]
    rfl

theorem isWord_marked (h : Hex.Spells word bytes) : Text.IsWord ('0' :: 'x' :: word) := by
  refine ⟨List.cons_ne_nil _ _, ?_⟩
  simp only [List.forall_mem_cons]
  exact ⟨rfl, rfl, fun c hc => Hex.isBlank_of_isSome_digit? (h.isSome_digit? hc)⟩

/-- The marker `0x` is no decimal digit, so that a literal is never taken for a
number, and what follows it is read as the bytes themselves. -/
theorem readWord_marked (hne : bytes ≠ []) (h : Hex.Spells word bytes) :
    readWord ('0' :: 'x' :: word) = .ok bytes := by
  have hdecimal : decimal? ('0' :: 'x' :: word) = none :=
    decimal?_eq_none (List.mem_cons_of_mem _ List.mem_cons_self) rfl (by decide)
  have hliteral : literal? ('0' :: 'x' :: word) = some bytes := by
    simp [literal?, h.ne_nil hne, h.decode_eq]
  simp only [readWord, hdecimal, hliteral]

theorem toUTF8_eq_flatMap (text : String) :
    text.toUTF8.data.toList = text.toList.flatMap String.utf8EncodeChar := by
  conv_lhs => rw [← String.ofList_toList (s := text)]
  rw [String.toUTF8, String.toByteArray_ofList, List.utf8Encode, List.data_toByteArray]

/-- A quotation is nothing else, whatever stands in it. -/
theorem readWord_quotation (text : List Char) :
    readWord ('\'' :: text ++ ['\'']) =
      .ok (Script.pushData (text.flatMap String.utf8EncodeChar)) := by
  have hdecimal : decimal? ('\'' :: text ++ ['\'']) = none :=
    decimal?_eq_none List.mem_cons_self rfl (by decide)
  have hquoted : quoted? ('\'' :: text ++ ['\'']) = some text := by
    simp [quoted?]
  have hliteral : literal? ('\'' :: text ++ ['\'']) = none := rfl
  simp only [readWord, hdecimal, hliteral, hquoted]

theorem isWord_quotation {text : List Char} (h : ∀ c ∈ text, Text.isBlank c = false) :
    Text.IsWord ('\'' :: text ++ ['\'']) := by
  refine ⟨List.cons_ne_nil _ _, ?_⟩
  rw [List.cons_append, List.forall_mem_cons, List.forall_mem_append]
  exact ⟨rfl, h, List.forall_mem_singleton.2 rfl⟩

/-- The names of opcodes that are also hexadecimal words. -/
theorem eq_of_decode_name : ∀ entry ∈ namedOpcodes,
    (Hex.decode entry.1.toList).isSome = true → entry.1.toList = "1ADD".toList := by
  decide +kernel

theorem lookup?_eq_none {table : List (String × Opcode)}
    (h : ∀ entry ∈ table, entry.1.toList ≠ word) : lookup? table word = none := by
  have hfind : (table.find? fun entry => entry.1.toList == word) = none :=
    List.find?_eq_none.2 fun entry hentry => by simpa using h entry hentry
  rw [lookup?, hfind]
  rfl

/-- No hexadecimal word but one is the name of an opcode. -/
theorem opcode?_eq_none (h : Hex.Spells word bytes) (hne : word ≠ "1ADD".toList) :
    opcode? word = none := by
  rw [opcode?.eq_def]
  split
  · have hletter := h.isSome_digit? List.mem_cons_self
    cases hletter
  · apply lookup?_eq_none
    rintro entry hentry rfl
    exact hne (eq_of_decode_name entry hentry (Option.isSome_of_eq_some h.decode_eq))

theorem isWord_unmarked (h : Hex.Spells word bytes) (hne : word ≠ []) : Text.IsWord word :=
  ⟨hne, fun _ hc => Hex.isBlank_of_isSome_digit? (h.isSome_digit? hc)⟩

/-- A hexadecimal word with a letter is data, unless it is also the name of an opcode. The
letter keeps it from being a decimal number. -/
theorem readWord_unmarked (h : Hex.Spells word bytes) (hc : c ∈ word) (hletter : c.isAlpha = true)
    (hne : word ≠ "1ADD".toList) : readWord word = .ok (Script.pushValue bytes) := by
  have hminus : c ≠ '-' := by
    rintro rfl
    cases hletter
  have hdecimal : decimal? word = none := decimal?_eq_none hc (isDigit_of_isAlpha hletter) hminus
  have hliteral : literal? word = none := by
    rw [literal?.eq_def]
    split
    · have hx := h.isSome_digit? (List.mem_cons_of_mem _ List.mem_cons_self)
      cases hx
    · rfl
  have hquoted : quoted? word = none := by
    rw [quoted?.eq_def]
    split
    · have hquote := h.isSome_digit? List.mem_cons_self
      cases hquote
    · rfl
  simp only [readWord, hdecimal, hliteral, hquoted, opcode?_eq_none h hne, h.decode_eq]

/-- Reading goes from word to word: two texts with a blank between them give the
scripts of both, or the error of the first one that has an error. A number within
the bounds is pushed as a number, one beyond them is an error, however long it
is; a literal behind `0x` is taken as it is; what is quoted is pushed byte for
byte; and a bare hexadecimal word with a letter in it is pushed as data. Of these
words only `1ADD` is the name of an opcode. -/
theorem texts_read_word_by_word :
    (∀ a b : String, read (a ++ " " ++ b) = do
      let first ← read a
      let second ← read b
      return first ++ second) ∧
    (∀ word value, IsDecimal word value → read (String.ofList word) =
      if value.natAbs ≤ 0xffffffff then .ok (Script.pushNumber value)
      else .error (.decimalOutOfRange (String.ofList word))) ∧
    (∀ word bytes, bytes ≠ [] → Hex.Spells word bytes →
      read ("0x" ++ String.ofList word) = .ok bytes) ∧
    (∀ text : String, (∀ c ∈ text.toList, Text.isBlank c = false) →
      read ("'" ++ text ++ "'") = .ok (Script.pushData text.toUTF8.data.toList)) ∧
    (∀ word bytes, Hex.Spells word bytes → (∃ c ∈ word, c.isAlpha = true) →
      word ≠ "1ADD".toList → read (String.ofList word) = .ok (Script.pushValue bytes)) ∧
    read "1ADD" = .ok [0x8b] := by
  refine ⟨read_append, ?_, ?_, ?_, ?_, by decide +kernel⟩
  · intro word value h
    rw [read_eq_readWord (String.toList_ofList ▸ h.isWord), String.toList_ofList]
    exact readWord_decimal h
  · intro word bytes hne h
    have hlist : ("0x" ++ String.ofList word).toList = '0' :: 'x' :: word := by
      rw [String.toList_append, @String.toList_ofList word]
      rfl
    rw [read_eq_readWord (hlist ▸ isWord_marked h), hlist]
    exact readWord_marked hne h
  · intro text h
    have hlist : ("'" ++ text ++ "'").toList = '\'' :: text.toList ++ ['\''] := by
      rw [String.toList_append, String.toList_append]
      rfl
    rw [read_eq_readWord (hlist ▸ isWord_quotation h), hlist, toUTF8_eq_flatMap]
    exact readWord_quotation text.toList
  · rintro word bytes h ⟨c, hc, hletter⟩ hne
    have hword := isWord_unmarked h (List.ne_nil_of_mem hc)
    rw [read_eq_readWord (String.toList_ofList ▸ hword), String.toList_ofList]
    exact readWord_unmarked h hc hletter hne

/-- Zeros in front of a negative number and of one that is too large, a literal in both letter
cases, a quotation with quotes inside, and data that would be a name in capitals. -/
theorem kinds_of_words_read :
    read "-0042" = .ok (Script.pushNumber (-42)) ∧
    read "00000000004294967296" = .error (.decimalOutOfRange "00000000004294967296") ∧
    read "0xAbc0" = .ok [0xab, 0xc0] ∧
    read "'it''s'" = .ok (Script.pushData "it''s".toUTF8.data.toList) ∧
    read "1add" = .ok (Script.pushValue [0x1a, 0xdd]) := by
  obtain ⟨-, hdecimal, hmarked, hquotation, hunmarked, -⟩ := texts_read_word_by_word
  refine ⟨?_, ?_, ?_, ?_, ?_⟩
  · exact hdecimal _ _ (@IsDecimal.negated [0, 0, 4, 2] (by decide) (by decide))
  · exact hdecimal _ _ (@IsDecimal.natural [0, 0, 0, 0, 0, 0, 0, 0, 0, 0, 4, 2, 9, 4, 9, 6, 7, 2, 9, 6]
      (by decide) (by decide))
  · exact hmarked "Abc0".toList _ (by decide) (by decide)
  · have hword : Text.IsWord "it''s".toList := by decide
    exact hquotation "it''s" hword.isBlank_eq_false
  · exact hunmarked "1add".toList _ (by decide) ⟨'a', by decide, rfl⟩ (by decide)

end SpendCheck.Assembly
