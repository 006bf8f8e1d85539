import Mathlib.Data.FinEnum
import Mathlib.Tactic.Common
import SpendCheck.Bytes.Digits
import SpendCheck.Proofs.Script.Decoding
import SpendCheck.Script.Template

namespace SpendCheck

namespace Instruction

/-- The value that an instruction pushes: its payload, or the one byte that stands for
the small number of its opcode. -/
def value? : Instruction → Option Bytes
  | push _ payload => some payload
  | op opcode =>
    if opcode = Opcode.negativeOne then some [0x81]
    else if Opcode.reserved < opcode ∧ opcode ≤ Opcode.sixteen then
      some [opcode - Opcode.reserved]
    else none

/-- The instruction pushes a value, and no instruction of any script that pushes this
value has fewer bytes. -/
structure IsShortestPush (value : Bytes) (instruction : Instruction) : Prop where
  pushes : instruction.value? = some value
  length_le : ∀ (script : Script) (other : Instruction), other ∈ script.instructions →
    other.value? = some value → instruction.bytes.length ≤ other.bytes.length

variable {opcode : Opcode} {payload value : Bytes} {instruction : Instruction}

/-- The length bytes of a push can count its payload. -/
theorem IsValid.length_payload_lt (h : (push opcode payload).IsValid)
    (hsized : ¬opcode ≤ Opcode.pushDirectMax) : payload.length < 256 ^ lengthWidth opcode := by
  obtain ⟨-, hsize⟩ := h
  rw [payloadSize, if_neg hsized] at hsize
  have hlt := Bytes.toNatLE_lt (Bytes.ofNatLE (lengthWidth opcode) payload.length)
  rwa [hsize, Bytes.length_ofNatLE] at hlt

theorem IsValid.length_payload_of_direct (h : (push opcode payload).IsValid)
    (hdirect : opcode ≤ Opcode.pushDirectMax) : payload.length = opcode.toNat := by
  obtain ⟨-, hsize⟩ := h
  rw [payloadSize, if_pos hdirect] at hsize
  exact hsize.symm

theorem isValid_push_sized (hle : opcode ≤ Opcode.pushData4) (hsized : Opcode.pushDirectMax < opcode)
    (hfits : payload.length < 256 ^ lengthWidth opcode) : (push opcode payload).IsValid := by
  refine ⟨hle, ?_⟩
  rw [payloadSize, if_neg (UInt8.not_le.2 hsized), Bytes.toNatLE_ofNatLE hfits]

/-- The opcodes of the small numbers, with the bytes that stand for them. -/
theorem value?_reserved_add : ∀ b : UInt8, 1 ≤ b ∧ b ≤ 16 →
    (op (Opcode.reserved + b)).IsValid ∧ (op (Opcode.reserved + b)).value? = some [b] := by
  decide +kernel

theorem sub_reserved_of_small : ∀ opcode : Opcode, Opcode.reserved < opcode ∧ opcode ≤ Opcode.sixteen →
    1 ≤ opcode - Opcode.reserved ∧ opcode - Opcode.reserved ≤ 16 := by
  decide +kernel

/-- The opcodes that push a value are those of -1 and of 1 to 16. -/
theorem value?_op_eq_some_iff :
    (op opcode).value? = some value ↔ opcode = Opcode.negativeOne ∧ value = [0x81] ∨
      (Opcode.reserved < opcode ∧ opcode ≤ Opcode.sixteen) ∧ value = [opcode - Opcode.reserved] := by
  rw [value?]
  split
  · next hnegative =>
    subst hnegative
    have hreserved : ¬(Opcode.reserved < Opcode.negativeOne ∧ Opcode.negativeOne ≤ Opcode.sixteen) := by
      decide
    simp [hreserved, eq_comm]
  · next hother => split <;> simp_all [eq_comm]

/-- Of the opcodes up to those of the small numbers only the reserved one has no value. -/
theorem isSome_value? (h : instruction.IsValid) (hle : instruction.opcode ≤ Opcode.sixteen)
    (hother : instruction ≠ op Opcode.reserved) : instruction.value?.isSome = true := by
  cases instruction with
  | push opcode payload => rfl
  | op opcode =>
    have hlow : 78 < opcode.toNat := h
    have hhigh : opcode.toNat ≤ 96 := hle
    have hne : opcode.toNat ≠ 80 := fun heq => hother (congrArg op (UInt8.toNat_inj.1 heq))
    have hcases : opcode.toNat = 79 ∨ 80 < opcode.toNat := by omega
    obtain hnegative | hsmall := hcases
    · rw [value?, if_pos (UInt8.toNat_inj.1 hnegative)]
      rfl
    · have hnumber : Opcode.reserved < opcode ∧ opcode ≤ Opcode.sixteen := ⟨hsmall, hle⟩
      rw [value?, if_pos hnumber]
      split <;> rfl

end Instruction

namespace Script

open Instruction

variable {data value : Bytes} {instruction : Instruction}

/-- A push of some data is a single instruction. Its length bytes say how long the
data is, unless there are more bytes than four of them can count. -/
theorem exists_push_of_length_lt (h : data.length < 2 ^ 32) :
    ∃ opcode, (push opcode data).IsValid ∧ (push opcode data).bytes = pushData data := by
  unfold pushData
  split
  · next hdirect =>
    have hopcode : (UInt8.ofNat data.length).toNat = data.length :=
      UInt8.toNat_ofNat_of_lt' (Nat.lt_of_le_of_lt hdirect (by decide))
    have hle : UInt8.ofNat data.length ≤ Opcode.pushDirectMax :=
      UInt8.le_iff_toNat_le.2 (hopcode.symm ▸ hdirect)
    exact ⟨_, isValid_push_direct hle hopcode.symm, bytes_push_direct data hle⟩
  · split
    · next hfits =>
      exact ⟨Opcode.pushData1, isValid_push_sized (by decide) (by decide) (Nat.lt_succ_of_le hfits), rfl⟩
    · split
      · next hfits =>
        exact ⟨Opcode.pushData2, isValid_push_sized (by decide) (by decide) (Nat.lt_succ_of_le hfits), rfl⟩
      · exact ⟨Opcode.pushData4, isValid_push_sized (by decide) (by decide) h, rfl⟩

theorem length_pushData (data : Bytes) :
    (pushData data).length = data.length +
      if data.length ≤ 75 then 1 else if data.length ≤ 255 then 2
      else if data.length ≤ 65535 then 3 else 5 := by
  have hdirect : Opcode.pushDirectMax.toNat = 75 := rfl
  unfold pushData
  rw [hdirect]
  split_ifs <;> simp <;> omega

/-- No push of some data is shorter than the one in the shortest form of the length. -/
theorem length_pushData_le {opcode : Opcode} (h : (push opcode data).IsValid) :
    (pushData data).length ≤ (push opcode data).size := by
  rw [length_pushData, Instruction.size]
  by_cases hdirect : opcode ≤ Opcode.pushDirectMax
  · have hlength : data.length ≤ 75 := by
      rw [h.length_payload_of_direct hdirect]
      exact UInt8.le_iff_toNat_le.1 hdirect
    rw [if_pos hlength]
    omega
  · have hfits := h.length_payload_lt hdirect
    -- No width is too small for its payload, so a narrower one is chosen only where it is enough.
    obtain rfl | rfl | rfl := Opcode.eq_pushData_of_not_direct hdirect h.1
    · change data.length < 256 at hfits
      change _ ≤ 1 + 1 + data.length
      split_ifs <;> omega
    · change data.length < 65536 at hfits
      change _ ≤ 1 + 2 + data.length
      split_ifs <;> omega
    · change _ ≤ 1 + 4 + data.length
      split_ifs <;> omega

/-- A push by an opcode of its own is shorter than one behind a length. -/
theorem length_pushValue_le_pushData (data : Bytes) :
    (pushValue data).length ≤ (pushData data).length := by
  have hpos : 1 ≤ (pushData data).length := by
    rw [length_pushData]
    split_ifs <;> omega
  unfold pushValue
  split
  · exact hpos
  · split_ifs
    · exact hpos
    · exact hpos
    · exact Nat.le_refl _
  · exact Nat.le_refl _

/-- No instruction that pushes a value is shorter than the one that a builder chooses. -/
theorem length_pushValue_le (h : instruction.IsValid) (hvalue : instruction.value? = some value) :
    (pushValue value).length ≤ instruction.size := by
  cases instruction with
  | push opcode payload =>
    obtain rfl := Option.some.inj hvalue
    exact (length_pushValue_le_pushData payload).trans (length_pushData_le h)
  | op opcode =>
    have hone : (pushValue value).length = 1 := by
      obtain ⟨-, rfl⟩ | ⟨hsmall, rfl⟩ := value?_op_eq_some_iff.1 hvalue
      · rfl
      · have hbyte : 1 ≤ opcode - Opcode.reserved ∧ opcode - Opcode.reserved ≤ 16 :=
          sub_reserved_of_small opcode hsmall
        rw [pushValue, if_pos hbyte]
        rfl
    rw [hone]
    exact Instruction.size_pos _

/-- The instruction that a builder chooses for a value pushes this value. -/
theorem exists_instruction_of_pushValue (h : value.length < 2 ^ 32) :
    ∃ instruction : Instruction, instruction.IsValid ∧ instruction.bytes = pushValue value ∧
      instruction.value? = some value := by
  have hdata : ∃ instruction : Instruction, instruction.IsValid ∧ instruction.bytes = pushData value ∧
      instruction.value? = some value := by
    obtain ⟨opcode, hvalid, hbytes⟩ := exists_push_of_length_lt h
    exact ⟨_, hvalid, hbytes, rfl⟩
  unfold pushValue
  split
  · exact ⟨.push 0x00 [], isValid_push_direct (by decide) rfl, rfl, rfl⟩
  · next b =>
    split_ifs with hsmall hnegative
    · obtain ⟨hvalid, hvalue⟩ := value?_reserved_add b hsmall
      exact ⟨.op (Opcode.reserved + b), hvalid, rfl, hvalue⟩
    · subst hnegative
      exact ⟨.op Opcode.negativeOne, by decide, rfl, rfl⟩
    · exact hdata
  · exact hdata

/-! What a script that only pushes consists of. -/

theorem tail_of_isPushOnly {script : Script} (h : script.isPushOnly = true) : script.tail = [] :=
  List.isEmpty_iff.1 (Bool.and_eq_true_iff.1 h).2

theorem opcode_le_of_isPushOnly {script : Script} (h : script.isPushOnly = true)
    (hmem : instruction ∈ script.instructions) : instruction.opcode ≤ Opcode.sixteen :=
  of_decide_eq_true (List.all_eq_true.1 (Bool.and_eq_true_iff.1 h).1 _ hmem)

end Script

end SpendCheck
