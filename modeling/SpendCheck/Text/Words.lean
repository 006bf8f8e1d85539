namespace SpendCheck.Text

variable {α : Type}

/-- The stretches between the separators, also the empty ones: `n` separators
    leave `n + 1` stretches. -/
def splitWhen (separates : α → Bool) : List α → List (List α)
  | [] => [[]]
  | a :: rest =>
    if separates a then [] :: splitWhen separates rest
    else (splitWhen separates rest).modifyHead (a :: ·)

theorem splitWhen_ne_nil (separates : α → Bool) (items : List α) :
    splitWhen separates items ≠ [] := by
  induction items with
  | nil => simp [splitWhen]
  | cons a rest ih =>
    unfold splitWhen
    split
    · simp
    · cases h : splitWhen separates rest with
      | nil => exact absurd h ih
      | cons first others => simp

/-- The Unicode property White_Space. -/
def isBlank (c : Char) : Bool :=
  let code := c.toNat
  (0x09 ≤ code && code ≤ 0x0d) || code == 0x20 || code == 0x85 || code == 0xa0 ||
    code == 0x1680 || (0x2000 ≤ code && code ≤ 0x200a) || code == 0x2028 || code == 0x2029 ||
    code == 0x202f || code == 0x205f || code == 0x3000

/-- Drops the blanks at both ends. -/
def trim (text : List Char) : List Char :=
  ((text.dropWhile isBlank).reverse.dropWhile isBlank).reverse

/-- The non-empty stretches between blanks. -/
def words (text : List Char) : List (List Char) :=
  (splitWhen isBlank text).filter (!·.isEmpty)

end SpendCheck.Text
