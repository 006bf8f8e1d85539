import Mathlib.Data.List.Forall2
import SpendCheck.Policy.FlagText
import SpendCheck.Proofs.Policy.Standard
import SpendCheck.Proofs.Text.Trim
import SpendCheck.Proofs.Text.Words

namespace SpendCheck

namespace Flags

variable {flags : Flags} {text : String} {word : List Char} {words : List (List Char)}

/-- The words of a text are what is between its commas, without the blanks around it. -/
def Lists (text : String) (words : List (List Char)) : Prop :=
  ∃ stretches, stretches ≠ [] ∧ (∀ stretch ∈ stretches, ',' ∉ stretch) ∧
    text.toList = [','].intercalate stretches ∧ List.Forall₂ Text.Pads stretches words

/-- A word that may stand in a list of flags. -/
def IsEntry (word : List Char) : Prop :=
  word = [] ∨ word = "NONE".toList ∨ ∃ flag : Flag, word = flag.name.toList

theorem forall₂_pads_iff {stretches : List (List Char)} :
    List.Forall₂ Text.Pads stretches words ↔ stretches.map Text.trim = words := by
  rw [← List.forall₂_eq_eq_eq, List.forall₂_map_left_iff]
  simp only [Text.trim_eq_iff]

/-- The words that a text lists are its stretches between commas without the blanks around them. -/
theorem lists_iff :
    Lists text words ↔ (Text.splitWhen (· == ',') text.toList).map Text.trim = words := by
  constructor
  · rintro ⟨stretches, hne, hcomma, htext, hwords⟩
    have hsplit : Text.splitWhen (· == ',') text.toList = stretches := by
      rw [Text.splitWhen_eq_splitOnP, ← List.splitOn_eq_splitOnP, htext,
        List.splitOn_intercalate ',' hcomma hne]
    rw [hsplit]
    exact forall₂_pads_iff.1 hwords
  · intro h
    refine ⟨_, Text.splitWhen_ne_nil _ _, ?_, ?_, forall₂_pads_iff.2 h⟩
    · intro stretch hstretch hcomma
      have hno := Text.separates_eq_false_of_mem_splitWhen stretch hstretch ',' hcomma
      cases hno
    · rw [Text.splitWhen_eq_splitOnP, ← List.splitOn_eq_splitOnP, List.intercalate_splitOn]

instance (text : String) (words : List (List Char)) : Decidable (Lists text words) :=
  decidable_of_iff _ lists_iff.symm

theorem exists_lists (text : String) : ∃ words, Lists text words :=
  ⟨_, lists_iff.2 rfl⟩

theorem flagNamed?_name (flag : Flag) : flagNamed? flag.name.toList = some flag := by
  cases flag <;> decide

/-- Names are read as they are spelled, and no two flags share one. -/
theorem flagNamed?_eq_some_iff {flag : Flag} :
    flagNamed? word = some flag ↔ word = flag.name.toList := by
  constructor
  · intro h
    rw [flagNamed?, List.find?_eq_some_iff_append, beq_iff_eq] at h
    exact h.1.symm
  · rintro rfl
    exact flagNamed?_name flag

theorem name_inj {flag other : Flag} : flag.name.toList = other.name.toList ↔ flag = other := by
  rw [← flagNamed?_eq_some_iff, flagNamed?_name, Option.some.injEq]

/-- The test for a word that adds nothing. -/
theorem isEmpty_or_eq_none_iff :
    (word.isEmpty || word == "NONE".toList) = true ↔ word = [] ∨ word = "NONE".toList := by
  rw [Bool.or_eq_true, List.isEmpty_iff, beq_iff_eq]

theorem name_ne_nothing (flag : Flag) :
    ¬ (flag.name.toList = [] ∨ flag.name.toList = "NONE".toList) := by
  cases flag <;> decide

theorem addWord_nothing (flags : Flags) (h : word = [] ∨ word = "NONE".toList) :
    flags.addWord word = .ok flags :=
  if_pos (isEmpty_or_eq_none_iff.2 h)

theorem addWord_name (h : flags ⊆ standard) (flag : Flag) :
    flags.addWord flag.name.toList = .ok (flags.insert flag.mask) := by
  rw [addWord, if_neg (mt isEmpty_or_eq_none_iff.1 (name_ne_nothing flag)), flagNamed?_name]
  exact congrArg Except.ok (or_mask_eq_insert h)

theorem addWord_unknown (flags : Flags) (h : ¬ IsEntry word) :
    flags.addWord word = .error ⟨String.ofList word⟩ := by
  have hnothing : ¬ (word = [] ∨ word = "NONE".toList) :=
    fun hword => h (hword.elim .inl fun hnone => .inr (.inl hnone))
  have hname : flagNamed? word = Option.none := by
    apply Option.eq_none_iff_forall_ne_some.2
    intro flag hflag
    exact h (.inr (.inr ⟨flag, flagNamed?_eq_some_iff.1 hflag⟩))
  rw [addWord, if_neg (mt isEmpty_or_eq_none_iff.1 hnothing), hname]

/-- One word adds the flag of that name and no other. -/
theorem addWord_of_isEntry (hflags : flags ⊆ standard) (hword : IsEntry word) :
    ∃ next, flags.addWord word = .ok next ∧ next ⊆ standard ∧
      ∀ flag, next.has flag = true ↔ flags.has flag = true ∨ flag.name.toList = word := by
  by_cases hnothing : word = [] ∨ word = "NONE".toList
  · refine ⟨flags, addWord_nothing flags hnothing, hflags, fun flag => ?_⟩
    have hne : flag.name.toList ≠ word := by
      rintro rfl
      exact name_ne_nothing flag hnothing
    exact (or_iff_left hne).symm
  · obtain ⟨flag, rfl⟩ := (hword.resolve_left fun h => hnothing (.inl h)).resolve_left
      fun h => hnothing (.inr h)
    refine ⟨flags.insert flag.mask, addWord_name hflags flag, insert_subset_standard _ _, ?_⟩
    intro other
    rw [has_insert, name_inj, Bool.or_eq_true, beq_iff_eq, or_comm]

/-- Words that are all known add the flags of their names, in any order and any
number of times. -/
theorem foldlM_addWord (hflags : flags ⊆ standard) (hwords : ∀ word ∈ words, IsEntry word) :
    ∃ next, words.foldlM addWord flags = .ok next ∧ next ⊆ standard ∧
      ∀ flag, next.has flag = true ↔ flags.has flag = true ∨ flag.name.toList ∈ words := by
  induction words generalizing flags with
  | nil => exact ⟨flags, rfl, hflags, fun flag => by simp⟩
  | cons word rest ih =>
    obtain ⟨hword, hrest⟩ := List.forall_mem_cons.1 hwords
    obtain ⟨next, hnext, hstandard, hhas⟩ := addWord_of_isEntry hflags hword
    obtain ⟨last, hlast, hstandard', hhas'⟩ := ih hstandard hrest
    refine ⟨last, ?_, hstandard', fun flag => ?_⟩
    · rw [List.foldlM_cons, hnext]
      exact hlast
    · rw [hhas', hhas, List.mem_cons, or_assoc]

theorem parse_eq_foldlM (h : Lists text words) : parse text = words.foldlM addWord none := by
  rw [parse, lists_iff.1 h]

/-- A list of known words is read as the flags that it names. -/
theorem parse_of_entries (h : Lists text words) (hwords : ∀ word ∈ words, IsEntry word) :
    ∃ flags, parse text = .ok flags ∧ flags ⊆ standard ∧
      ∀ flag, flags.has flag = true ↔ flag.name.toList ∈ words := by
  obtain ⟨flags, hflags, hstandard, hhas⟩ := foldlM_addWord none_subset hwords
  refine ⟨flags, (parse_eq_foldlM h).trans hflags, hstandard, fun flag => ?_⟩
  rw [hhas, or_iff_right]
  cases flag <;> decide

/-- The first unknown word is what is reported. -/
theorem parse_of_unknown {before after : List (List Char)}
    (h : Lists text (before ++ word :: after)) (hbefore : ∀ entry ∈ before, IsEntry entry)
    (hword : ¬ IsEntry word) : parse text = .error ⟨String.ofList word⟩ := by
  obtain ⟨flags, hflags, -⟩ := foldlM_addWord none_subset hbefore
  rw [parse_eq_foldlM h, List.foldlM_append, hflags]
  change (word :: after).foldlM addWord flags = _
  rw [List.foldlM_cons, addWord_unknown flags hword]
  rfl

/-- Among words that are not all entries there is a first one that is none. -/
theorem exists_unknown (h : ¬ ∀ word ∈ words, IsEntry word) :
    ∃ before word after, words = before ++ word :: after ∧ (∀ entry ∈ before, IsEntry entry) ∧
      ¬ IsEntry word := by
  induction words with
  | nil => exact absurd (fun word hword => nomatch hword) h
  | cons first rest ih =>
    by_cases hfirst : IsEntry first
    · obtain ⟨before, word, after, rfl, hbefore, hword⟩ :=
        ih fun hrest => h (List.forall_mem_cons.2 ⟨hfirst, hrest⟩)
      exact ⟨first :: before, word, after, rfl, List.forall_mem_cons.2 ⟨hfirst, hbefore⟩, hword⟩
    · exact ⟨[], first, rest, rfl, (fun entry hentry => nomatch hentry), hfirst⟩

/-- Either all words of a text are entries or there is a first one that is none. -/
theorem entries_or_unknown (text : String) :
    (∃ words, Lists text words ∧ ∀ word ∈ words, IsEntry word) ∨
      ∃ before word after, Lists text (before ++ word :: after) ∧
        (∀ entry ∈ before, IsEntry entry) ∧ ¬ IsEntry word := by
  obtain ⟨words, hwords⟩ := exists_lists text
  by_cases hall : ∀ word ∈ words, IsEntry word
  · exact .inl ⟨words, hwords, hall⟩
  · obtain ⟨before, word, after, rfl, hbefore, hword⟩ := exists_unknown hall
    exact .inr ⟨before, word, after, hwords, hbefore, hword⟩

/-- No text sets a bit that is not a flag. -/
theorem subset_standard_of_parse (h : parse text = .ok flags) : flags ⊆ standard := by
  obtain ⟨words, hlists, hwords⟩ | ⟨before, word, after, hlists, hbefore, hword⟩ :=
    entries_or_unknown text
  · obtain ⟨read, hread, hstandard, -⟩ := parse_of_entries hlists hwords
    rw [h] at hread
    exact Except.ok.inj hread ▸ hstandard
  · rw [parse_of_unknown hlists hbefore hword] at h
    cases h

theorem lists_self (hwords : ∀ word ∈ words, IsEntry word) (hne : words ≠ []) :
    Lists (String.ofList ([','].intercalate words)) words := by
  have hplain : ∀ word, IsEntry word → ',' ∉ word ∧ Text.Pads word word := by
    rintro word (rfl | rfl | ⟨flag, rfl⟩)
    · decide
    · decide
    · cases flag <;> decide
  refine ⟨words, hne, fun word hword => (hplain word (hwords word hword)).1,
    String.toList_ofList, List.forall₂_same.2 fun word hword => (hplain word (hwords word hword)).2⟩

/-- The text of a set has the names of its flags as words; that of the empty set
has one word, which is empty. -/
theorem lists_text (flags : Flags) :
    ∃ words, Lists flags.text words ∧ (∀ word ∈ words, IsEntry word) ∧
      ∀ flag : Flag, flag.name.toList ∈ words ↔ flags.has flag = true := by
  obtain hempty | hne := eq_or_ne flags.toList []
  · have htext : flags.text = "" := by
      rw [Flags.text, hempty]
      rfl
    refine ⟨[[]], htext ▸ by decide, by simp [IsEntry], fun flag => ?_⟩
    rw [← mem_toList, hempty]
    cases flag <;> decide
  · have htext : flags.text =
        String.ofList ([','].intercalate (flags.toList.map fun flag => flag.name.toList)) := by
      rw [← String.toList_inj, String.toList_ofList, Flags.text, String.toList_intercalate,
        List.map_map]
      rfl
    have hwords : ∀ word ∈ flags.toList.map fun flag => flag.name.toList, IsEntry word :=
      List.forall_mem_map.2 fun flag _ => .inr (.inr ⟨flag, rfl⟩)
    refine ⟨_, htext ▸ lists_self hwords (mt List.map_eq_nil_iff.1 hne), hwords, fun flag => ?_⟩
    simp [name_inj, mem_toList]

/-- A set is read back from its text. -/
theorem parse_text (h : flags ⊆ standard) : parse flags.text = .ok flags := by
  obtain ⟨words, hlists, hwords, hnames⟩ := lists_text flags
  obtain ⟨read, hread, hstandard, hhas⟩ := parse_of_entries hlists hwords
  have heq : read = flags := by
    apply eq_of_has hstandard h
    intro flag
    rw [Bool.eq_iff_iff, hhas, hnames]
  rw [hread, heq]

/-- The sets that a program can make: from masks and texts, and by setting and
clearing the bits of any masks, defined or not. -/
inductive Reachable : Flags → Prop where
  | none : Reachable none
  | ofBits {bits : UInt32} {flags : Flags} (h : ofBits? bits = some flags) : Reachable flags
  | parse {text : String} {flags : Flags} (h : parse text = .ok flags) : Reachable flags
  | insert {flags : Flags} (mask : UInt32) (h : Reachable flags) : Reachable (flags.insert mask)
  | erase {flags : Flags} (mask : UInt32) (h : Reachable flags) : Reachable (flags.erase mask)

theorem Reachable.subset_standard (h : Reachable flags) : flags ⊆ standard := by
  induction h with
  | none => exact none_subset
  | ofBits h => exact subset_standard_of_ofBits? h
  | parse h => exact subset_standard_of_parse h
  | insert mask _ _ => exact insert_subset_standard _ mask
  | erase mask _ ih => exact erase_subset mask ih

/-- A text whose words are names of flags, `NONE` or empty is read as the set of
the flags it names, whatever the order and the blanks; of any other text the
first word that is none of these is reported. Every set that can be made has no
bit that belongs to no flag, it is read back from its mask and from its text, and
its single bits are listed once each, in the order of the names in its text. -/
theorem texts_and_sets_agree :
    (∀ text, (∃ words, Lists text words ∧ ∀ word ∈ words, IsEntry word) ∨
      ∃ before word after, Lists text (before ++ word :: after) ∧
        (∀ entry ∈ before, IsEntry entry) ∧ ¬ IsEntry word) ∧
    (∀ text words, Lists text words → (∀ word ∈ words, IsEntry word) →
      ∃ flags, parse text = .ok flags ∧ flags ⊆ standard ∧
        ∀ flag, flags.has flag = true ↔ flag.name.toList ∈ words) ∧
    (∀ text before word after, Lists text (before ++ word :: after) →
      (∀ entry ∈ before, IsEntry entry) → ¬ IsEntry word →
        parse text = .error ⟨String.ofList word⟩) ∧
    ∀ flags, Reachable flags →
      flags ⊆ standard ∧ ofBits? flags.bits = some flags ∧ parse flags.text = .ok flags ∧
      flags.text = ",".intercalate (flags.toList.map Flag.name) ∧ flags.toList.Sublist Flag.all ∧
      (flags.toList.map Flag.mask).Nodup ∧
      ∀ bit, bit ∈ flags.toList.map Flag.mask ↔
        ∃ i, flags.bits.toBitVec.getLsbD i = true ∧ bit.toBitVec = BitVec.twoPow 32 i := by
  refine ⟨entries_or_unknown, fun text words => parse_of_entries,
    fun text before word after => parse_of_unknown, ?_⟩
  intro flags hreachable
  have hstandard := hreachable.subset_standard
  exact ⟨hstandard, ofBits?_bits_eq_some_iff.2 hstandard, parse_text hstandard, rfl,
    List.filter_sublist, nodup_masks_toList flags, fun bit => mem_masks_toList hstandard⟩

/-- A tab, blanks, an empty word, a repeated one and the word for no flag are read, and the
first unknown word is reported as it is written. -/
theorem padded_and_repeated_words_read :
    (∃ flags, parse "\tLOW_S ,,DERSIG,NONE, LOW_S" = .ok flags ∧ flags ⊆ standard ∧
      ∀ flag, flags.has flag = true ↔ flag.name.toList ∈
        ["LOW_S".toList, [], "DERSIG".toList, "NONE".toList, "LOW_S".toList]) ∧
    parse "P2SH, witness ,?" = .error ⟨"witness"⟩ ∧
    parse ((none.insert 0xffffffff).erase 0xffffff0f).text =
      .ok ((none.insert 0xffffffff).erase 0xffffff0f) := by
  obtain ⟨-, hentries, hunknown, hreachable⟩ := texts_and_sets_agree
  refine ⟨hentries _ _ (by decide +kernel) ?_, ?_, ?_⟩
  · simp only [List.forall_mem_cons]
    exact ⟨.inr (.inr ⟨.lowS, rfl⟩), .inl rfl, .inr (.inr ⟨.derSig, rfl⟩), .inr (.inl rfl),
      .inr (.inr ⟨.lowS, rfl⟩), fun word hword => nomatch hword⟩
  · refine hunknown _ ["P2SH".toList] "witness".toList ["?".toList] (by decide +kernel) ?_ ?_
    · exact List.forall_mem_singleton.2 (.inr (.inr ⟨.p2sh, rfl⟩))
    · rintro (h | h | ⟨flag, h⟩)
      · cases h
      · exact absurd h (by decide)
      · cases flag <;> exact absurd h (by decide)
  · exact (hreachable _ ((Reachable.none.insert _).erase _)).2.2.1

end Flags

end SpendCheck
