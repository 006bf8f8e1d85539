import Mathlib.Algebra.Group.Int.Defs
import SpendCheck.Bytes.Basic

namespace SpendCheck

theorem Bytes.splitAt?_eq_ite (count : Nat) (bytes : Bytes) :
    splitAt? count bytes =
      if count ≤ bytes.length then some (bytes.take count, bytes.drop count) else none := by
  unfold splitAt?
  by_cases h : count ≤ bytes.length
  · simp [h]
  · have hshort : (bytes.take count).length ≠ count := by
      rw [List.length_take]
      omega
    exact (if_neg hshort).trans (if_neg h).symm

/-- What stops a program at once. -/
inductive Fault where
  /-- A position outside of a list. -/
  | index
  /-- A range outside of a list, or one that ends before it begins. -/
  | range
  /-- The difference of two natural numbers, the second of which is larger. -/
  | difference
  /-- A number that does not fit into a signed 64-bit word. -/
  | overflow
  /-- A shift by as many bits as a word has, or more. -/
  | shift
  /-- A loop that takes more turns than it may. -/
  | endless
deriving DecidableEq, Repr

/-- A computation that faults or returns a value. -/
abbrev Checked := Except Fault

namespace Checked

variable {α β : Type}

/-! Every access to a part of a list checks its bounds. -/

/-- The item at a position. -/
def get (items : List α) (position : Nat) : Checked α :=
  match items[position]? with
  | none => .error .index
  | some item => .ok item

/-- The items from a position up to another one. -/
def slice (items : List α) (start stop : Nat) : Checked (List α) :=
  if start ≤ stop ∧ stop ≤ items.length then .ok ((items.take stop).drop start) else .error .range

/-- The items from a position on. -/
def sliceFrom (items : List α) (start : Nat) : Checked (List α) :=
  slice items start items.length

/-- Puts an item in the place of the one at a position. -/
def store (items : List α) (position : Nat) (item : α) : Checked (List α) :=
  if position < items.length then .ok (items.set position item) else .error .index

/-- Exchanges the items at two positions. -/
def swap (items : List α) (first second : Nat) : Checked (List α) := do
  let a ← get items first
  let b ← get items second
  return (items.set first b).set second a

/-- Takes out the item at a position. -/
def remove (items : List α) (position : Nat) : Checked (α × List α) := do
  let item ← get items position
  return (item, items.eraseIdx position)

/-- Puts an item in front of a position. -/
def insert (items : List α) (position : Nat) (item : α) : Checked (List α) :=
  if position ≤ items.length then .ok (items.insertIdx position item) else .error .index

/-- Takes out the items from a position up to another one. -/
def drain (items : List α) (start stop : Nat) : Checked (List α × List α) := do
  let taken ← slice items start stop
  return (taken, items.take start ++ items.drop stop)

/-- Writes items over as many others. -/
def copy (target source : List α) : Checked (List α) :=
  if target.length = source.length then .ok source else .error .range

/-! So does arithmetic. -/

/-- The difference of two natural numbers. -/
def difference (a b : Nat) : Checked Nat :=
  if b ≤ a then .ok (a - b) else .error .difference

/-- A number as a signed 64-bit word. -/
def int64 (value : Int) : Checked Int :=
  if -2 ^ 63 ≤ value ∧ value < 2 ^ 63 then .ok value else .error .overflow

/-- Shifts a 64-bit word. -/
def shiftLeft (word : BitVec 64) (count : Nat) : Checked (BitVec 64) :=
  if count < 64 then .ok (word <<< count) else .error .shift

/-- Both hold; the second one is only looked at where the first one does. -/
def both (first : Bool) (second : Checked Bool) : Checked Bool :=
  if first then second else .ok false

@[simp] theorem ok_bind (a : α) (next : α → Checked β) : (Except.ok a >>= next) = next a := rfl

@[simp] theorem pure_eq_ok (a : α) : (pure a : Checked α) = .ok a := rfl

variable {items front back : List α} {a b start stop position first second : Nat} {item : α}

theorem get_eq_ok_iff : get items position = .ok item ↔ items[position]? = some item := by
  unfold get
  cases items[position]? <;> simp

theorem get_eq_ok (h : position < items.length) : get items position = .ok items[position] :=
  get_eq_ok_iff.2 (List.getElem?_eq_getElem h)

theorem slice_eq_ok (h : start ≤ stop) (hstop : stop ≤ items.length) :
    slice items start stop = .ok ((items.take stop).drop start) :=
  if_pos ⟨h, hstop⟩

theorem sliceFrom_eq_ok (h : start ≤ items.length) : sliceFrom items start = .ok (items.drop start) := by
  rw [sliceFrom, slice_eq_ok h (Nat.le_refl _), List.take_length]

theorem store_eq_ok (h : position < items.length) (item : α) :
    store items position item = .ok (items.set position item) :=
  if_pos h

theorem difference_eq_ok (h : b ≤ a) : difference a b = .ok (a - b) :=
  if_pos h

theorem int64_eq_ok {value : Int} (hlow : -2 ^ 63 ≤ value) (hhigh : value < 2 ^ 63) :
    int64 value = .ok value :=
  if_pos ⟨hlow, hhigh⟩

theorem shiftLeft_eq_ok {count : Nat} (h : count < 64) (word : BitVec 64) :
    shiftLeft word count = .ok (word <<< count) :=
  if_pos h

theorem copy_eq_ok {source : List α} (h : items.length = source.length) : copy items source = .ok source :=
  if_pos h

theorem both_eq_ok {holds other : Bool} {check : Checked Bool} (h : holds = true → check = .ok other) :
    both holds check = .ok (holds && other) := by
  cases holds with
  | true => exact h rfl
  | false => rfl

/-! Accesses to the back of a list do not depend on what is in front of it. -/

theorem get_append : get (front ++ back) (front.length + position) = get back position := by
  unfold get
  rw [List.getElem?_append_right (Nat.le_add_right _ _), Nat.add_sub_cancel_left]

theorem slice_append :
    slice (front ++ back) (front.length + start) (front.length + stop) = slice back start stop := by
  simp [slice, List.take_length_add_append, List.drop_length_add_append]

/-- Two positions in the back of a list are exchanged there, and the front stays. -/
theorem swap_append :
    swap (front ++ back) (front.length + first) (front.length + second) =
      (swap back first second).map (front ++ ·) := by
  simp only [swap, get_append]
  cases get back first with
  | error fault => rfl
  | ok a =>
    cases get back second with
    | error fault => rfl
    | ok b => simp [Except.map, List.set_append_right]

theorem remove_append :
    remove (front ++ back) (front.length + position) =
      (remove back position).map fun taken => (taken.1, front ++ taken.2) := by
  simp only [remove, get_append]
  cases get back position with
  | error fault => rfl
  | ok item => simp [Except.map, List.eraseIdx_append_of_length_le]

/-- What is inserted in the back of a list leaves the front as it is. -/
theorem insert_append :
    insert (front ++ back) (front.length + position) item =
      (insert back position item).map (front ++ ·) := by
  have hinsert : (front ++ back).insertIdx (front.length + position) item =
      front ++ back.insertIdx position item := by
    induction front with
    | nil => simp
    | cons a front ih =>
      rw [List.cons_append, List.length_cons, Nat.add_right_comm, List.insertIdx_succ_cons, ih,
        List.cons_append]
  simp only [insert, List.length_append, Nat.add_le_add_iff_left, hinsert]
  split <;> rfl

theorem drain_append :
    drain (front ++ back) (front.length + start) (front.length + stop) =
      (drain back start stop).map fun taken => (taken.1, front ++ taken.2) := by
  simp only [drain, slice_append]
  cases slice back start stop with
  | error fault => rfl
  | ok taken => simp [Except.map, List.take_length_add_append, List.drop_length_add_append]

theorem difference_length_append (h : b ≤ back.length) :
    difference (front ++ back).length b = .ok (front.length + (back.length - b)) := by
  rw [List.length_append, difference_eq_ok (by omega), Nat.add_sub_assoc h]

end Checked

end SpendCheck
