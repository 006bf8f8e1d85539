import SpendCheck.Bytes.Basic

namespace SpendCheck.Wire

/-- What can be wrong with encoded data. -/
inductive Error where
  /-- The data end too early. -/
  | truncated
  /-- A count is not in its shortest form. -/
  | nonMinimal
deriving DecidableEq, Repr

/-- The words shown to a user. -/
def Error.message : Error → String
  | truncated => "IO error"
  | nonMinimal => "non-minimal varint"

/-- Reads a value from the front of the data and leaves the rest. -/
abbrev Reader := StateT Bytes (Except Error)

/-- Reads a given number of bytes. -/
def readFixed (count : Nat) : Reader { bytes : Bytes // bytes.length = count } := fun bytes =>
  match h : bytes.splitAt? count with
  | none => .error .truncated
  | some (first, rest) => .ok (⟨first, (Bytes.splitAt?_eq_some_iff.1 h).2⟩, rest)

/-- Reading takes what was put in front of the data. -/
theorem readFixed_append {count : Nat} (first : Bytes) (h : first.length = count) (rest : Bytes) :
    readFixed count (first ++ rest) = .ok (⟨first, h⟩, rest) := by
  have hsplit : Bytes.splitAt? count (first ++ rest) = some (first, rest) :=
    Bytes.splitAt?_eq_some_iff.2 ⟨rfl, h⟩
  unfold readFixed
  split
  · next hnone =>
    rw [hsplit] at hnone
    cases hnone
  · next hsome =>
    rw [hsplit] at hsome
    cases hsome
    rfl

/-- Reads a little-endian number of a given width. -/
def readNat (width : Nat) : Reader Nat := do
  return (← readFixed width).val.toNatLE

/-- Writes a count: one byte below fd, else a marker and two, four or eight
    little-endian bytes, as few as will do. -/
def compactSize (count : Nat) : Bytes :=
  if count < 0xfd then [UInt8.ofNat count]
  else if count ≤ 0xffff then 0xfd :: Bytes.ofNatLE 2 count
  else if count ≤ 0xffffffff then 0xfe :: Bytes.ofNatLE 4 count
  else 0xff :: Bytes.ofNatLE 8 count

/-- Reads a number of a given width that must not fit a shorter form. -/
def readAtLeast (least width : Nat) : Reader Nat := do
  let count ← readNat width
  if count < least then throw .nonMinimal else return count

/-- Reads a count in its shortest form. -/
def readCompactSize : Reader Nat := do
  let first ← readNat 1
  if first < 0xfd then return first
  else if first = 0xfd then readAtLeast 0xfd 2
  else if first = 0xfe then readAtLeast 0x10000 4
  else readAtLeast 0x100000000 8

/-- Writes a byte string behind its length. -/
def sized (bytes : Bytes) : Bytes :=
  compactSize bytes.length ++ bytes

/-- Reads a byte string behind its length. -/
def readSized : Reader Bytes := do
  return (← readFixed (← readCompactSize)).val

/-- Reads a given number of items. -/
def readMany {α : Type} (item : Reader α) : Nat → Reader (List α)
  | 0 => return []
  | count + 1 => do
    let first ← item
    return first :: (← readMany item count)

/-- Writes items behind their number. -/
def counted {α : Type} (item : α → Bytes) (items : List α) : Bytes :=
  compactSize items.length ++ items.flatMap item

/-- Reads items behind their number. -/
def readCounted {α : Type} (item : Reader α) : Reader (List α) := do
  readMany item (← readCompactSize)

end SpendCheck.Wire
