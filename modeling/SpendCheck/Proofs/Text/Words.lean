import SpendCheck.Text.Words

namespace SpendCheck.Text

theorem isBlank_of_printable {c : Char} (h : 0x20 < c.toNat ∧ c.toNat < 0x7f) :
    isBlank c = false := by
  obtain ⟨hlow, hhigh⟩ := h
  simp [isBlank]
  omega

theorem splitWhen_eq_splitOnP {α : Type} (separates : α → Bool) (items : List α) :
    splitWhen separates items = items.splitOnP separates := by
  induction items with
  | nil => rw [splitWhen, List.splitOnP_nil]
  | cons a rest ih => rw [splitWhen, List.splitOnP_cons_eq_if_modifyHead, ih]

/-- No stretch contains a separator. -/
theorem separates_eq_false_of_mem_splitWhen {α : Type} {separates : α → Bool} {items : List α} :
    ∀ stretch ∈ splitWhen separates items, ∀ a ∈ stretch, separates a = false := by
  induction items with
  | nil => simp [splitWhen]
  | cons a rest ih =>
    rw [splitWhen]
    split
    · simpa using ih
    · rename_i hseparates
      obtain ⟨before, others, hrest⟩ := List.exists_cons_of_ne_nil (splitWhen_ne_nil separates rest)
      rw [hrest] at ih ⊢
      simpa [hseparates] using ih

/-- A row of characters that a text with blanks around it holds as one word. -/
structure IsWord (word : List Char) : Prop where
  ne_nil : word ≠ []
  isBlank_eq_false : ∀ c ∈ word, isBlank c = false

theorem isWord_iff {word : List Char} :
    IsWord word ↔ (word.isEmpty || word.any isBlank) = false := by
  constructor
  · intro h
    simpa [h.ne_nil] using h.isBlank_eq_false
  · intro h
    obtain ⟨hne, hblank⟩ := Bool.or_eq_false_iff.1 h
    exact ⟨by simpa using hne, by simpa using hblank⟩

instance (word : List Char) : Decidable (IsWord word) :=
  decidable_of_iff' _ isWord_iff

theorem IsWord.words_eq {word : List Char} (h : IsWord word) : words word = [word] := by
  rw [words, splitWhen_eq_splitOnP, List.splitOnP_eq_singleton h.isBlank_eq_false]
  simp [h.ne_nil]

/-- No word runs across a blank. -/
theorem words_append_cons (before after : List Char) {c : Char} (h : isBlank c = true) :
    words (before ++ c :: after) = words before ++ words after := by
  simp only [words, splitWhen_eq_splitOnP, List.splitOnP_append_cons before after h,
    List.filter_append]

/-- Words with blanks between them are told apart again. -/
theorem words_intercalate {ws : List (List Char)} (h : ∀ word ∈ ws, IsWord word) :
    words ([' '].intercalate ws) = ws := by
  induction ws with
  | nil => rfl
  | cons first others ih =>
    have hfirst := (h first List.mem_cons_self).words_eq
    have hothers := ih fun word hword => h word (List.mem_cons_of_mem first hword)
    cases others with
    | nil => simpa using hfirst
    | cons second rest =>
      rw [List.intercalate_cons_cons, List.append_assoc, List.singleton_append,
        words_append_cons first _ rfl, hfirst, hothers, List.singleton_append]

end SpendCheck.Text
