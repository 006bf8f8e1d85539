import SpendCheck.Proofs.Guarded.Action
import SpendCheck.Proofs.Transaction.Codec
import SpendCheck.Spend.Verification

namespace SpendCheck.Guarded

open Checked Guarded.Action Wire

/-! Transactions are read with a cursor: the offset of the data that are left. -/

/-- Reads from some data at an offset. -/
abbrev Cursor := Procedure Wire.Error Nat

/-- Reads one value. -/
def readAt {α : Type} (bytes : Bytes) (item : Reader α) : Cursor α := do
  let left ← sliceFrom bytes (← get)
  match item left with
  | .error e => throw e
  | .ok taken =>
    modify (· + (left.length - taken.2.length))
    return taken.1

/-- Reads a given number of items. -/
def readMany {α : Type} (item : Cursor α) : Nat → Cursor (List α)
  | 0 => return []
  | count + 1 => do
    let first ← item
    return first :: (← readMany item count)

/-- Reads items behind their number. -/
def readCounted {α : Type} (bytes : Bytes) (item : Cursor α) : Cursor (List α) := do
  readMany item (← readAt bytes readCompactSize)

theorem length_fixed (txid : { bytes : Bytes // bytes.length = 32 }) : txid.val.length = 32 :=
  txid.property

/-- Reads an input. -/
def readInput (bytes : Bytes) : Cursor Input := do
  let txid ← readAt bytes (readFixed 32)
  let vout ← readAt bytes (readNat 4)
  let script ← readAt bytes readSized
  let sequence ← readAt bytes (readNat 4)
  return ⟨⟨txid.val, UInt32.ofNat vout, length_fixed txid⟩, script, UInt32.ofNat sequence⟩

/-- Reads an output. -/
def readOutput (bytes : Bytes) : Cursor Output := do
  let value ← readAt bytes (readNat 8)
  let script ← readAt bytes readSized
  return ⟨(UInt64.ofNat value).toInt64, script⟩

/-- Reads a transaction. -/
def readTransaction (bytes : Bytes) : Cursor Transaction := do
  let version ← readAt bytes (readNat 4)
  let inputs ← readCounted bytes (readInput bytes)
  let outputs ← readCounted bytes (readOutput bytes)
  let lockTime ← readAt bytes (readNat 4)
  return ⟨UInt32.ofNat version, inputs, outputs, UInt32.ofNat lockTime⟩

variable {α β : Type} {bytes : Bytes}

/-- From every offset inside of the data a cursor reads what a reader reads from what is
left there, and stays inside. -/
structure Follows (bytes : Bytes) (cursor : Cursor α) (reader : Reader α) : Prop where
  error : ∀ {position e}, position ≤ bytes.length → reader (bytes.drop position) = .error e →
    ∃ stop, exec cursor position = .ok (.error e, stop)
  ok : ∀ {position a rest}, position ≤ bytes.length → reader (bytes.drop position) = .ok (a, rest) →
    ∃ stop, stop ≤ bytes.length ∧ bytes.drop stop = rest ∧ exec cursor position = .ok (.ok a, stop)

theorem Follows.pure (a : α) : Follows bytes (pure a) (pure a) where
  error := fun _ h => by cases h
  ok := fun hposition h => by
    cases h
    exact ⟨_, hposition, rfl, rfl⟩

/-- A cursor that stays inside can be followed by another one. -/
theorem Follows.bind {cursor : Cursor α} {reader : Reader α} {laterCursor : α → Cursor β}
    {laterReader : α → Reader β} (h : Follows bytes cursor reader)
    (hlater : ∀ a, Follows bytes (laterCursor a) (laterReader a)) :
    Follows bytes (cursor >>= laterCursor) (reader >>= laterReader) where
  error := fun {position e} hposition hread => by
    cases hfirst : reader (bytes.drop position) with
    | error cause =>
      have hcause : (Except.error cause : Except Wire.Error (β × Bytes)) = .error e := by
        rw [← hread]
        change _ = reader (bytes.drop position) >>= _
        rw [hfirst]
        rfl
      cases hcause
      obtain ⟨stop, hexec⟩ := h.error hposition hfirst
      exact ⟨stop, by rw [exec_bind, hexec]; rfl⟩
    | ok taken =>
      obtain ⟨a, rest⟩ := taken
      obtain ⟨stop, hstop, hrest, hexec⟩ := h.ok hposition hfirst
      have hnext : laterReader a (bytes.drop stop) = .error e := by
        rw [hrest, ← hread]
        change _ = reader (bytes.drop position) >>= _
        rw [hfirst]
        rfl
      obtain ⟨stop', hexec'⟩ := (hlater a).error hstop hnext
      exact ⟨stop', by rw [exec_bind_of_ok hexec, hexec']⟩
  ok := fun {position b rest} hposition hread => by
    obtain ⟨a, mid, hfirst, hsecond⟩ := bind_eq_ok_iff.1 hread
    obtain ⟨stop, hstop, hrest, hexec⟩ := h.ok hposition hfirst
    rw [← hrest] at hsecond
    obtain ⟨stop', hstop', hrest', hexec'⟩ := (hlater a).ok hstop hsecond
    exact ⟨stop', hstop', hrest', by rw [exec_bind_of_ok hexec, hexec']⟩

/-- A reader that takes exactly the encodings of some values leaves the end of the data, so that
the cursor moves by what it takes. -/
theorem Follows.of_exact {item : Reader α} {encode : α → Bytes} {valid : α → Prop}
    (h : Exact item encode valid) : Follows bytes (readAt bytes item) item where
  error := fun {position e} hposition hread => by
    refine ⟨position, ?_⟩
    rw [readAt, exec_bind_of_ok exec_get, exec_bind_of_ok (exec_lift_of_ok (sliceFrom_eq_ok hposition)),
      hread]
    rfl
  ok := fun {position a rest} hposition hread => by
    obtain ⟨-, htaken⟩ := (h _ _ _).1 hread
    have hlength := congrArg List.length htaken
    rw [List.length_drop, List.length_append] at hlength
    refine ⟨position + ((bytes.drop position).length - rest.length), ?_, ?_, ?_⟩
    · rw [List.length_drop]
      omega
    · rw [← List.drop_drop, htaken, List.length_append, Nat.add_sub_cancel, List.drop_left]
    · rw [readAt, exec_bind_of_ok exec_get, exec_bind_of_ok (exec_lift_of_ok (sliceFrom_eq_ok hposition)),
        hread]
      rfl

theorem Follows.many {cursor : Cursor α} {reader : Reader α} (h : Follows bytes cursor reader)
    (count : Nat) : Follows bytes (Guarded.readMany cursor count) (Wire.readMany reader count) := by
  induction count with
  | zero => exact .pure []
  | succ count ih => exact h.bind fun first => ih.bind fun rest => .pure (first :: rest)

theorem follows_readFixed (count : Nat) :
    Follows bytes (readAt bytes (readFixed count)) (readFixed count) :=
  @Follows.of_exact _ bytes (readFixed count) Subtype.val (fun _ => True) fun data taken rest => by
    rw [readFixed_eq_ok_iff, true_and]

theorem follows_readNat (width : Nat) : Follows bytes (readAt bytes (readNat width)) (readNat width) :=
  .of_exact fun _ _ _ => readNat_eq_ok_iff

theorem Follows.counted {cursor : Cursor α} {reader : Reader α} (h : Follows bytes cursor reader) :
    Follows bytes (Guarded.readCounted bytes cursor) (Wire.readCounted reader) :=
  (Follows.of_exact readCompactSize_exact).bind h.many

theorem follows_readInput (bytes : Bytes) : Follows bytes (readInput bytes) Input.reader :=
  (follows_readFixed 32).bind fun _ => (follows_readNat 4).bind fun _ =>
    (Follows.of_exact readSized_exact).bind fun _ => (follows_readNat 4).bind fun _ => .pure _

theorem follows_readOutput (bytes : Bytes) : Follows bytes (readOutput bytes) Output.reader :=
  (follows_readNat 8).bind fun _ => (Follows.of_exact readSized_exact).bind fun _ => .pure _

theorem follows_readTransaction (bytes : Bytes) : Follows bytes (readTransaction bytes) Transaction.reader :=
  (follows_readNat 4).bind fun _ => (follows_readInput bytes).counted.bind fun _ =>
    (follows_readOutput bytes).counted.bind fun _ => (follows_readNat 4).bind fun _ => .pure _

/-- Reads a spending transaction that must take all of the data. -/
def parseTransaction (bytes : Bytes) : Checked (Except SpendError Transaction) := do
  let out ← exec (readTransaction bytes) 0
  match out.1 with
  | .error _ => return .error .deserialize
  | .ok tx => if out.2 = bytes.length then return .ok tx else return .error .sizeMismatch

/-- Reading by offsets does not leave the data, and the last offset tells whether some are left
over. -/
theorem parseTransaction_eq_ok (bytes : Bytes) :
    parseTransaction bytes = .ok (Transaction.parse bytes) := by
  have hfollows := follows_readTransaction bytes
  unfold parseTransaction Transaction.parse Transaction.decode Transaction.decodePrefix
  cases hread : Transaction.reader bytes with
  | error e =>
    obtain ⟨stop, hexec⟩ := hfollows.error (Nat.zero_le _) hread
    rw [hexec]
    rfl
  | ok taken =>
    obtain ⟨tx, rest⟩ := taken
    obtain ⟨stop, hstop, hrest, hexec⟩ := hfollows.ok (Nat.zero_le _) hread
    have hconsumed : bytes.length - rest.length = stop := by
      rw [← hrest, List.length_drop]
      omega
    rw [hexec, ok_bind]
    dsimp only
    rw [hconsumed]
    by_cases hwhole : stop = bytes.length
    · rw [if_pos hwhole, if_pos hwhole]
      rfl
    · rw [if_neg hwhole, if_neg hwhole]
      rfl

end SpendCheck.Guarded
