import SpendCheck.Bytes.Digits
import SpendCheck.Proofs.Guarded.Number
import SpendCheck.Proofs.Script.Decoding
import SpendCheck.Script.Deletion
import SpendCheck.Script.Template

namespace SpendCheck.Guarded

open Checked

/-! Scripts are read with a cursor: the offset where the next instruction begins. -/

/-- What is found at an offset of a script. -/
inductive Next where
  /-- Nothing is left. -/
  | done
  /-- A push that runs past the end. -/
  | truncated
  /-- An instruction that ends at an offset. -/
  | instruction (instruction : Instruction) (stop : Nat)

/-- Reads the length bytes of a push, if they are there. -/
def readLength? (script : Script) (start width : Nat) : Checked (Option Nat) := do
  if start + width ≤ script.length then
    let word ← wordLE ((script.take (start + width)).drop start)
    return some word.toNat
  else return none

/-- How much a push pushes, if its length bytes are there. -/
def readSize? (script : Script) (opcode : Opcode) (start : Nat) : Checked (Option Nat) :=
  if Instruction.lengthWidth opcode = 0 then return some opcode.toNat
  else readLength? script start (Instruction.lengthWidth opcode)

/-- Reads what is at an offset. -/
def next (script : Script) (cursor : Nat) : Checked Next := do
  if script.length ≤ cursor then return .done
  let opcode ← get script cursor
  if Opcode.pushData4 < opcode then return .instruction (.op opcode) (cursor + 1)
  match ← readSize? script opcode (cursor + 1) with
  | none => return .truncated
  | some size =>
    let start := cursor + 1 + Instruction.lengthWidth opcode
    let stop := start + size
    if script.length < stop then return .truncated
    let payload ← slice script start stop
    return .instruction (.push opcode payload) stop

variable {script : Script} {cursor : Nat}

/-- Length bytes are sliced out only where they are there, and four of them fit into a word. -/
theorem readLength?_eq_ok {start width : Nat} (hstart : start ≤ script.length) (hwidth : width ≤ 4) :
    readLength? script start width =
      .ok ((Bytes.splitAt? width (script.drop start)).map fun split => Bytes.toNatLE split.1) := by
  rw [readLength?, Bytes.splitAt?_eq_ite, List.length_drop]
  by_cases h : start + width ≤ script.length
  · have hbytes : (script.take (start + width)).drop start = (script.drop start).take width := by
      rw [List.drop_take, Nat.add_sub_cancel_left]
    have hlength : ((script.drop start).take width).length = width := by
      rw [List.length_take, List.length_drop]
      omega
    have hlt := Bytes.toNatLE_lt ((script.drop start).take width)
    have hword : 256 ^ ((script.drop start).take width).length ≤ 2 ^ 64 := by
      rw [hlength]
      exact (Nat.pow_le_pow_right (by decide) hwidth).trans (by decide)
    have hroom : width ≤ script.length - start := by omega
    rw [if_pos h, if_pos hroom, hbytes, wordLE_eq_ok (by omega)]
    simp only [ok_bind, BitVec.toNat_ofNat, Option.map_some]
    rw [Nat.mod_eq_of_lt (by omega)]
    rfl
  · have hshort : ¬width ≤ script.length - start := by omega
    rw [if_neg h, if_neg hshort]
    rfl

theorem lengthWidth_le (opcode : Opcode) : Instruction.lengthWidth opcode ≤ 4 := by
  unfold Instruction.lengthWidth
  split
  · decide
  · split
    · decide
    · split <;> decide

/-- The opcodes without length bytes are those that say themselves how much they push. -/
theorem lengthWidth_eq_zero_iff {opcode : Opcode} (h : ¬Opcode.pushData4 < opcode) :
    Instruction.lengthWidth opcode = 0 ↔ opcode ≤ Opcode.pushDirectMax := by
  constructor
  · intro hwidth
    by_contra hlonger
    obtain rfl | rfl | rfl := Opcode.eq_pushData_of_not_direct hlonger (UInt8.not_lt.1 h) <;>
      cases hwidth
  · exact Instruction.lengthWidth_of_direct

/-- The size of a push is found either in its opcode or in its length bytes. -/
theorem readSize?_eq_ok {opcode : Opcode} (hpush : ¬Opcode.pushData4 < opcode) {start : Nat}
    (hstart : start ≤ script.length) :
    readSize? script opcode start =
      .ok ((Bytes.splitAt? (Instruction.lengthWidth opcode) (script.drop start)).map fun split =>
        Instruction.payloadSize opcode split.1) := by
  unfold readSize?
  by_cases hdirect : opcode ≤ Opcode.pushDirectMax
  · have hwidth := (lengthWidth_eq_zero_iff hpush).2 hdirect
    simp [hwidth, Bytes.splitAt?_eq_ite, Instruction.payloadSize, hdirect]
  · have hwidth : Instruction.lengthWidth opcode ≠ 0 :=
      fun hzero => hdirect ((lengthWidth_eq_zero_iff hpush).1 hzero)
    rw [if_neg hwidth, readLength?_eq_ok hstart (lengthWidth_le opcode)]
    simp only [Instruction.payloadSize, if_neg hdirect]

/-- What the instruction at an offset, if there is one, is found to be. -/
def Next.ofRead (script : Script) (cursor : Nat) : Option (Instruction × Script) → Next
  | some (found, _) => .instruction found (cursor + found.size)
  | none => if script.length ≤ cursor then .done else .truncated

/-- From every offset, also from one past the end, the scanner finds what the reader finds in
what is left. -/
theorem next_eq_ok (script : Script) (cursor : Nat) :
    next script cursor = .ok (.ofRead script cursor (Instruction.read? (script.drop cursor))) := by
  unfold next
  by_cases hend : script.length ≤ cursor
  · simp [hend, List.drop_eq_nil_of_le hend, Instruction.read?, Next.ofRead]
  have hlt : cursor < script.length := Nat.not_le.1 hend
  have hrest := List.drop_eq_getElem_cons hlt
  have hget : get script cursor = .ok script[cursor] := get_eq_ok hlt
  simp only [if_neg hend, hget, ok_bind, hrest, Instruction.read?]
  by_cases hop : Opcode.pushData4 < script[cursor]
  · simp only [if_pos hop]
    rfl
  simp only [if_neg hop, readSize?_eq_ok hop (Nat.succ_le_of_lt hlt), ok_bind, Bytes.splitAt?_eq_ite,
    List.length_drop]
  by_cases hlength : Instruction.lengthWidth script[cursor] ≤ script.length - (cursor + 1)
  · simp only [if_pos hlength, Option.map_some, List.drop_drop, List.length_drop]
    generalize hsize : Instruction.payloadSize script[cursor]
      ((script.drop (cursor + 1)).take (Instruction.lengthWidth script[cursor])) = size
    by_cases hpayload :
        size ≤ script.length - (cursor + 1 + Instruction.lengthWidth script[cursor])
    · have hstop : ¬script.length < cursor + 1 + Instruction.lengthWidth script[cursor] + size := by
        omega
      have htaken : ((script.drop (cursor + 1 + Instruction.lengthWidth script[cursor])).take size).length =
          size := by
        rw [List.length_take, List.length_drop]
        omega
      simp only [if_pos hpayload, if_neg hstop, slice_eq_ok (Nat.le_add_right _ _) (Nat.not_lt.1 hstop),
        ok_bind, List.drop_take, Nat.add_sub_cancel_left, Next.ofRead, Instruction.size, htaken]
      simp only [← Nat.add_assoc]
      rfl
    · have hstop : script.length < cursor + 1 + Instruction.lengthWidth script[cursor] + size := by
        omega
      simp only [if_neg hpayload, if_pos hstop, Next.ofRead, if_neg hend]
      rfl
  · simp only [if_neg hlength, Option.map_none, Next.ofRead, if_neg hend]
    rfl

theorem next_of_read? (script : Script) (cursor : Nat) {found : Instruction} {rest : Script}
    (h : Instruction.read? (script.drop cursor) = some (found, rest)) :
    next script cursor = .ok (.instruction found (cursor + found.size)) := by
  rw [next_eq_ok, h]
  rfl

theorem next_of_read?_eq_none (script : Script) {cursor : Nat} (hleft : cursor < script.length)
    (h : Instruction.read? (script.drop cursor) = none) :
    next script cursor = .ok .truncated := by
  rw [next_eq_ok, h, Next.ofRead, if_neg (Nat.not_le.2 hleft)]

theorem next_of_length_le (script : Script) {cursor : Nat} (h : script.length ≤ cursor) :
    next script cursor = .ok .done := by
  rw [next_eq_ok, List.drop_eq_nil_of_le h, Instruction.read?, Next.ofRead, if_pos h]

/-- The bytes of an instruction lie between the offset where it is read and its end, and
the rest begins there. -/
theorem slice_of_read? {found : Instruction} {rest : Script}
    (h : Instruction.read? (script.drop cursor) = some (found, rest)) :
    cursor + found.size ≤ script.length ∧
      slice script cursor (cursor + found.size) = .ok found.bytes ∧
      script.drop (cursor + found.size) = rest := by
  have hbytes := Instruction.eq_append_of_read? h
  have hlength := congrArg List.length hbytes
  rw [List.length_drop, List.length_append, Instruction.length_bytes] at hlength
  have hpos := found.size_pos
  have hstop : cursor + found.size ≤ script.length := by omega
  refine ⟨hstop, ?_, ?_⟩
  · rw [slice_eq_ok (Nat.le_add_right _ _) hstop, List.drop_take, Nat.add_sub_cancel_left, hbytes,
      ← Instruction.length_bytes, List.take_left]
  · rw [← List.drop_drop, hbytes, ← Instruction.length_bytes, List.drop_left]

/-! Every turn of a loop over a script moves the cursor forward. -/

/-- Copies a script from an offset on, without the occurrences of a pattern that begin
between two instructions. -/
def deleteFrom (pattern : Bytes) (script : Script) : (turns cursor : Nat) → Checked Script
  | 0, _ => .error .endless
  | turns + 1, cursor => do
    let rest ← sliceFrom script cursor
    if pattern.isPrefixOf rest then deleteFrom pattern script turns (cursor + pattern.length)
    else if script.length ≤ cursor then return []
    else
      match ← next rest 0 with
      | .instruction _ size =>
        let kept ← slice script cursor (cursor + size)
        let others ← deleteFrom pattern script turns (cursor + size)
        return kept ++ others
      | _ => return rest

/-- Removes every occurrence of a pattern that begins between two instructions. -/
def deleteAll (pattern : Bytes) (script : Script) : Checked Script :=
  if pattern.isEmpty then return script else deleteFrom pattern script (script.length + 1) 0

/-- The pattern is not empty and neither is an instruction, so every turn moves the cursor on
and the turns do not run out. -/
theorem deleteFrom_eq_ok {pattern : Bytes} (hpattern : pattern ≠ []) {turns : Nat}
    (hcursor : cursor ≤ script.length) (hturns : script.length - cursor < turns) :
    deleteFrom pattern script turns cursor = .ok (Script.deleteAll pattern (script.drop cursor)) := by
  induction turns generalizing cursor with
  | zero => omega
  | succ turns ih =>
    rw [deleteFrom, sliceFrom_eq_ok hcursor, ok_bind, Script.deleteAll]
    by_cases hprefix : pattern.isPrefixOf (script.drop cursor) = true
    · have hle := (List.isPrefixOf_iff_prefix.1 hprefix).length_le
      rw [List.length_drop] at hle
      have hpos := List.length_pos_iff.2 hpattern
      rw [if_pos hprefix, dif_pos ⟨hpattern, hprefix⟩, ih (by omega) (by omega), List.drop_drop]
    · rw [if_neg hprefix, dif_neg fun hfound => hprefix hfound.2]
      by_cases hend : script.length ≤ cursor
      · rw [if_pos hend, List.drop_eq_nil_of_le hend]
        rfl
      · rw [if_neg hend]
        split
        · next hread =>
          have hleft : 0 < (script.drop cursor).length := by
            rw [List.length_drop]
            omega
          rw [next_of_read?_eq_none _ hleft hread]
          rfl
        · next found rest hread =>
          obtain ⟨hstop, hslice, hrest⟩ := slice_of_read? hread
          have hpos := found.size_pos
          simp only [next_of_read? _ 0 hread, ok_bind, Nat.zero_add, hslice, ih hstop (by omega), hrest]
          rfl

theorem deleteAll_nil (script : Script) : Script.deleteAll [] script = script := by
  generalize hpattern : ([] : Bytes) = pattern
  fun_induction Script.deleteAll pattern script with
  | case1 script hfound => exact absurd hpattern.symm hfound.1
  | case2 script _ hread => rfl
  | case3 script _ found rest hread ih => rw [ih, ← Instruction.eq_append_of_read? hread]

/-- The scan ends and no cursor leaves the script, whether or not the pattern is empty. -/
theorem deleteAll_eq_ok (pattern : Bytes) (script : Script) :
    deleteAll pattern script = .ok (Script.deleteAll pattern script) := by
  unfold deleteAll
  cases pattern with
  | nil =>
    rw [deleteAll_nil]
    rfl
  | cons b rest => exact deleteFrom_eq_ok (List.cons_ne_nil b rest) (Nat.zero_le _) (by omega)

/-- Copies a script from an offset on, without the separators. -/
def withoutSeparatorsFrom (script : Script) : (turns start : Nat) → Checked Script
  | 0, _ => .error .endless
  | turns + 1, start => do
    match ← next script start with
    | .done => return []
    | .truncated => sliceFrom script start
    | .instruction found stop =>
      let kept ← if found = .op Opcode.codeSeparator then pure [] else slice script start stop
      let others ← withoutSeparatorsFrom script turns stop
      return kept ++ others

/-- Every turn copies an instruction or leaves it out, and a push past the end ends the loop
with all that is left. -/
theorem withoutSeparatorsFrom_eq_ok {turns start : Nat} (hstart : start ≤ script.length)
    (hturns : script.length - start < turns) :
    withoutSeparatorsFrom script turns start = .ok (Script.withoutSeparators (script.drop start)) := by
  induction turns generalizing start with
  | zero => omega
  | succ turns ih =>
    rw [withoutSeparatorsFrom]
    by_cases hend : script.length ≤ start
    · simp only [next_of_length_le script hend, List.drop_eq_nil_of_le hend, ok_bind,
        Script.withoutSeparators, Script.instructions, Script.tail, Script.decode_nil]
      rfl
    cases hread : Instruction.read? (script.drop start) with
    | none =>
      simp only [next_of_read?_eq_none script (Nat.not_le.1 hend) hread, ok_bind,
        sliceFrom_eq_ok hstart, Script.withoutSeparators, Script.instructions, Script.tail,
        Script.decode_of_read?_eq_none hread]
      rfl
    | some read =>
      obtain ⟨found, rest⟩ := read
      obtain ⟨hstop, hslice, hrest⟩ := slice_of_read? hread
      have hpos := found.size_pos
      simp only [next_of_read? script start hread, ok_bind, hslice, ih hstop (by omega), hrest,
        Script.withoutSeparators, Script.instructions, Script.tail, Script.decode_of_read?_eq_some hread]
      by_cases hseparator : found = .op Opcode.codeSeparator
      · simp [hseparator]
      · simp [hseparator]

/-- Removes the separators. -/
def withoutSeparators (script : Script) : Checked Script :=
  withoutSeparatorsFrom script (script.length + 1) 0

theorem withoutSeparators_eq_ok (script : Script) :
    withoutSeparators script = .ok script.withoutSeparators :=
  withoutSeparatorsFrom_eq_ok (Nat.zero_le _) (by omega)

/-- Whether the instructions from an offset on only push. -/
def isPushOnlyFrom (script : Script) : (turns cursor : Nat) → Checked Bool
  | 0, _ => .error .endless
  | turns + 1, cursor => do
    match ← next script cursor with
    | .done => return true
    | .truncated => return false
    | .instruction found stop =>
      if found.opcode ≤ Opcode.sixteen then isPushOnlyFrom script turns stop else return false

/-- The loop ends at the first instruction that does not push, or at a push past the end, or
where nothing is left. -/
theorem isPushOnlyFrom_eq_ok {turns : Nat} (hcursor : cursor ≤ script.length)
    (hturns : script.length - cursor < turns) :
    isPushOnlyFrom script turns cursor = .ok (Script.isPushOnly (script.drop cursor)) := by
  induction turns generalizing cursor with
  | zero => omega
  | succ turns ih =>
    rw [isPushOnlyFrom]
    by_cases hend : script.length ≤ cursor
    · simp only [next_of_length_le script hend, List.drop_eq_nil_of_le hend, ok_bind,
        Script.isPushOnly, Script.instructions, Script.tail, Script.decode_nil]
      rfl
    cases hread : Instruction.read? (script.drop cursor) with
    | none =>
      have hne : script.drop cursor ≠ [] := fun hnil => hend (List.drop_eq_nil_iff.1 hnil)
      simp only [next_of_read?_eq_none script (Nat.not_le.1 hend) hread, ok_bind, Script.isPushOnly,
        Script.instructions, Script.tail, Script.decode_of_read?_eq_none hread,
        List.isEmpty_eq_false_iff.2 hne]
      rfl
    | some read =>
      obtain ⟨found, rest⟩ := read
      obtain ⟨hstop, -, hrest⟩ := slice_of_read? hread
      have hpos := found.size_pos
      simp only [next_of_read? script cursor hread, ok_bind, ih hstop (by omega), hrest,
        Script.isPushOnly, Script.instructions, Script.tail, Script.decode_of_read?_eq_some hread,
        List.all_cons]
      by_cases hpush : found.opcode ≤ Opcode.sixteen
      · simp [hpush]
      · simp [hpush]

/-- Whether a script only pushes. -/
def isPushOnly (script : Script) : Checked Bool :=
  isPushOnlyFrom script (script.length + 1) 0

/-- Whether a script asks for an element with a given 20-byte hash and nothing else. -/
def isPayToScriptHash (script : Script) : Checked Bool := do
  if script.length ≠ 23 then return false
  if (← get script 0) ≠ Opcode.hash160 then return false
  if (← get script 1) ≠ 0x14 then return false
  return (← get script 22) == Opcode.equal

theorem isPushOnly_eq_ok (script : Script) : isPushOnly script = .ok script.isPushOnly :=
  isPushOnlyFrom_eq_ok (Nat.zero_le _) (by omega)

/-- The length is compared before the three bytes are read. -/
theorem isPayToScriptHash_eq_ok (script : Script) :
    isPayToScriptHash script = .ok script.isPayToScriptHash := by
  unfold isPayToScriptHash Script.isPayToScriptHash
  by_cases hlength : script.length = 23
  · have h0 : 0 < script.length := by omega
    have h1 : 1 < script.length := by omega
    have h22 : 22 < script.length := by omega
    simp only [get_eq_ok h0, get_eq_ok h1, get_eq_ok h22,
      List.getElem?_eq_getElem h0, List.getElem?_eq_getElem h1, List.getElem?_eq_getElem h22, ok_bind]
    by_cases hhash : script[0] = Opcode.hash160
    · by_cases hpush : script[1] = 0x14
      · simp [hlength, hhash, hpush]
      · simp [hlength, hhash, hpush]
    · simp [hlength, hhash]
  · simp [hlength]

end SpendCheck.Guarded
