import Mathlib.Data.List.TakeWhile
import SpendCheck.Text.Words

namespace SpendCheck.Text

/-- A row of characters that neither begins nor ends with a blank; it may be
empty, and it may have blanks inside. -/
structure IsTrimmed (word : List Char) : Prop where
  first : ∀ c ∈ word.head?, isBlank c = false
  last : ∀ c ∈ word.getLast?, isBlank c = false

/-- A text consists of a word and of blanks on both sides of it. -/
structure Pads (text word : List Char) : Prop where
  trimmed : IsTrimmed word
  exists_blanks : ∃ before after, text = before ++ word ++ after ∧
    (∀ c ∈ before, isBlank c = true) ∧ ∀ c ∈ after, isBlank c = true

/-- Nothing is dropped from the front of a text that does not begin with a blank. -/
theorem dropWhile_append_of_head? {before word : List Char} (hbefore : ∀ c ∈ before, isBlank c = true)
    (hword : ∀ c ∈ word.head?, isBlank c = false) : (before ++ word).dropWhile isBlank = word := by
  rw [List.dropWhile_append_of_pos hbefore]
  cases word with
  | nil => rfl
  | cons c rest => exact List.dropWhile_cons_of_neg (by simp [hword c rfl])

theorem exists_eq_append_dropWhile (text : List Char) :
    ∃ before, text = before ++ text.dropWhile isBlank ∧ ∀ c ∈ before, isBlank c = true :=
  ⟨text.takeWhile isBlank, List.takeWhile_append_dropWhile.symm, fun _ => List.mem_takeWhile_imp⟩

theorem isBlank_head?_dropWhile {text : List Char} {c : Char} (h : c ∈ (text.dropWhile isBlank).head?) :
    isBlank c = false := by
  have hstop := List.head?_dropWhile_not isBlank text
  rw [Option.mem_def.1 h] at hstop
  exact hstop

/-- Trimming stops at the ends of the word, which are not blank. -/
theorem Pads.trim_eq {text word : List Char} (h : Pads text word) : trim text = word := by
  obtain ⟨before, after, rfl, hbefore, hafter⟩ := h.exists_blanks
  cases word with
  | nil =>
    have hblank : ∀ c ∈ before ++ after, isBlank c = true := by
      intro c hc
      exact (List.mem_append.1 hc).elim (hbefore c) (hafter c)
    have hnone : (before ++ [] ++ after).dropWhile isBlank = [] := by
      rw [List.append_nil, List.dropWhile_eq_nil_iff]
      exact hblank
    rw [trim, hnone]
    rfl
  | cons c rest =>
    have hfront : (before ++ (c :: rest) ++ after).dropWhile isBlank = c :: rest ++ after := by
      rw [List.append_assoc]
      exact dropWhile_append_of_head? hbefore h.trimmed.first
    have hback : (after.reverse ++ (c :: rest).reverse).dropWhile isBlank = (c :: rest).reverse := by
      apply dropWhile_append_of_head?
      · exact fun d hd => hafter d (List.mem_reverse.1 hd)
      · rw [List.head?_reverse]
        exact h.trimmed.last
    rw [trim, hfront, List.reverse_append, hback, List.reverse_reverse]

/-- Every text has a word in it that is left when the blanks at both ends are dropped. -/
theorem pads_trim (text : List Char) : Pads text (trim text) := by
  obtain ⟨before, htext, hbefore⟩ := exists_eq_append_dropWhile text
  obtain ⟨after, hrest, hafter⟩ := exists_eq_append_dropWhile (text.dropWhile isBlank).reverse
  have hword : text.dropWhile isBlank = trim text ++ after.reverse := by
    rw [trim, ← List.reverse_append, ← hrest, List.reverse_reverse]
  refine ⟨⟨fun c hc => ?_, fun c hc => ?_⟩, before, after.reverse, ?_, hbefore, ?_⟩
  · apply @isBlank_head?_dropWhile text
    rw [hword, List.head?_append, Option.mem_def.1 hc]
    rfl
  · apply @isBlank_head?_dropWhile (text.dropWhile isBlank).reverse
    rw [trim, List.getLast?_reverse] at hc
    exact hc
  · rw [List.append_assoc, ← hword]
    exact htext
  · exact fun c hc => hafter c (List.mem_reverse.1 hc)

theorem trim_eq_iff {text word : List Char} : trim text = word ↔ Pads text word := by
  constructor
  · rintro rfl
    exact pads_trim text
  · exact Pads.trim_eq

instance (text word : List Char) : Decidable (Pads text word) :=
  decidable_of_iff _ trim_eq_iff

/-- Blanks inside of a word stay. -/
example : Pads " two words\t".toList "two words".toList := by
  decide +kernel

end SpendCheck.Text
