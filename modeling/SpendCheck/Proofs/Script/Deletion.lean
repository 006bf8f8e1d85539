import Mathlib.Tactic.Common
import SpendCheck.Machine.CheckMultiSig
import SpendCheck.Proofs.Script.Push

namespace SpendCheck

namespace Script

/-- The script without the instructions that have certain bytes. -/
def withoutInstructions (patterns : List Bytes) (script : Script) : Script :=
  (script.instructions.filter (·.bytes ∉ patterns)).flatMap Instruction.bytes ++ script.tail

theorem decode_withoutInstructions (patterns : List Bytes) (script : Script) :
    decode (script.withoutInstructions patterns) =
      (script.instructions.filter (·.bytes ∉ patterns), script.tail) :=
  decode_flatMap_append_tail script fun _ hmem => (List.mem_filter.1 hmem).1

theorem withoutInstructions_nil (script : Script) : script.withoutInstructions [] = script := by
  have hall : script.instructions.filter (·.bytes ∉ ([] : List Bytes)) = script.instructions := by simp
  rw [withoutInstructions, hall, flatMap_instructions_append_tail]

/-- Deleting in two passes is deleting in one. -/
theorem withoutInstructions_withoutInstructions (first second : List Bytes) (script : Script) :
    (script.withoutInstructions first).withoutInstructions second =
      script.withoutInstructions (first ++ second) := by
  rw [withoutInstructions, instructions, tail, decode_withoutInstructions, withoutInstructions,
    List.filter_filter]
  simp only [List.mem_append, not_or, Bool.decide_and, Bool.and_comm]

/-- Removing the bytes of an instruction wherever they begin between two
instructions removes the instructions with these bytes and nothing else. -/
theorem deleteAll_bytes {pattern : Instruction} (h : pattern.IsValid) (script : Script) :
    deleteAll pattern.bytes script = script.withoutInstructions [pattern.bytes] := by
  -- The induction follows the removal, so that the first instruction decides each case.
  fun_induction deleteAll pattern.bytes script with
  | case1 script hfound ih =>
    obtain ⟨rest, rfl⟩ := List.isPrefixOf_iff_prefix.1 hfound.2
    rw [List.drop_left] at ih
    rw [List.drop_left, ih]
    simp [withoutInstructions, instructions, tail, decode_bytes_append h]
  | case2 script hfound hread =>
    simp [withoutInstructions, instructions, tail, decode_of_read?_eq_none hread]
  | case3 script hfound first rest hread ih =>
    have hscript := Instruction.eq_append_of_read? hread
    have hother : first.bytes ≠ pattern.bytes := by
      intro hsame
      apply hfound
      refine ⟨List.ne_nil_of_length_pos ?_, ?_⟩
      · rw [Instruction.length_bytes]
        exact pattern.size_pos
      · rw [hscript, hsame]
        exact List.isPrefixOf_iff_prefix.2 (List.prefix_append _ _)
    rw [hscript, ih]
    simp [withoutInstructions, instructions, tail,
      decode_bytes_append (Instruction.isValid_of_read? hread), hother]

theorem deletePush_eq {sig : Bytes} (h : sig.length < 2 ^ 32) (script : Script) :
    script.deletePush sig = script.withoutInstructions [pushData sig] := by
  obtain ⟨opcode, hvalid, hbytes⟩ := exists_push_of_length_lt h
  rw [deletePush, ← hbytes, deleteAll_bytes hvalid]

theorem deleteAll_pushData {data : Bytes} (h : data.length < 2 ^ 32) (script : Script) :
    deleteAll (pushData data) script = script.withoutInstructions [pushData data] :=
  deletePush_eq h script

/-- Removing the pushes of several signatures one after the other, each from what
the last removal left, removes the instructions that are one of these pushes. -/
theorem deletePushes_eq {sigs : List Bytes} (h : ∀ sig ∈ sigs, sig.length < 2 ^ 32) (script : Script) :
    script.deletePushes sigs = script.withoutInstructions (sigs.map pushData) := by
  induction sigs generalizing script with
  | nil => exact (withoutInstructions_nil script).symm
  | cons sig sigs ih =>
    rw [deletePushes, List.foldl_cons, deletePush_eq (h sig List.mem_cons_self), ← deletePushes,
      ih fun other hother => h other (List.mem_cons_of_mem sig hother),
      withoutInstructions_withoutInstructions]
    rfl

theorem withoutInstructions_congr {patterns patterns' : List Bytes}
    (h : ∀ pattern, pattern ∈ patterns ↔ pattern ∈ patterns') (script : Script) :
    script.withoutInstructions patterns = script.withoutInstructions patterns' := by
  simp only [withoutInstructions, h]

theorem withoutInstructions_of_perm {patterns patterns' : List Bytes} (h : patterns.Perm patterns')
    (script : Script) :
    script.withoutInstructions patterns = script.withoutInstructions patterns' :=
  withoutInstructions_congr (fun _ => h.mem_iff) script

/-- Removing a push of some data wherever its bytes begin between two instructions takes
away the instructions that have these bytes. The others stay as they are and in
their order, and so does the tail. What is removed once does not turn up again, and
two such removals can change places. -/
theorem deleteAll_pushData_filters {data : Bytes} (h : data.length < 2 ^ 32) (script : Script) :
    deleteAll (pushData data) script =
        (script.instructions.filter (·.bytes ≠ pushData data)).flatMap Instruction.bytes ++ script.tail ∧
      (deleteAll (pushData data) script).instructions =
        script.instructions.filter (·.bytes ≠ pushData data) ∧
      (deleteAll (pushData data) script).tail = script.tail ∧
      deleteAll (pushData data) (deleteAll (pushData data) script) =
        deleteAll (pushData data) script ∧
      ∀ other : Bytes, other.length < 2 ^ 32 →
        deleteAll (pushData other) (deleteAll (pushData data) script) =
          deleteAll (pushData data) (deleteAll (pushData other) script) := by
  have hdecode : decode (deleteAll (pushData data) script) =
      (script.instructions.filter (·.bytes ≠ pushData data), script.tail) := by
    rw [deleteAll_pushData h, decode_withoutInstructions]
    simp only [List.mem_singleton, ne_eq]
  have hinstructions := congrArg Prod.fst hdecode
  have htail := congrArg Prod.snd hdecode
  refine ⟨?_, hinstructions, htail, ?_, fun other hother => ?_⟩
  · have hwhole := flatMap_instructions_append_tail (deleteAll (pushData data) script)
    rwa [instructions, tail, hdecode, eq_comm] at hwhole
  · rw [deleteAll_pushData h, deleteAll_pushData h, withoutInstructions_withoutInstructions]
    exact withoutInstructions_congr (by simp) script
  · rw [deleteAll_pushData h, deleteAll_pushData hother, deleteAll_pushData hother,
      deleteAll_pushData h, withoutInstructions_withoutInstructions,
      withoutInstructions_withoutInstructions]
    exact withoutInstructions_of_perm (List.Perm.swap _ _ _) script

/-- A direct push goes, one with a length byte stays, and so do the same bytes inside of
a longer push and behind the beginning of a push that runs past the end. -/
theorem deleteAll_direct_push_of_seven :
    List.length [(0x07 : UInt8)] < 2 ^ 32 ∧
      deleteAll (pushData [0x07])
          [0x01, 0x07, 0x4c, 0x01, 0x07, 0x02, 0x01, 0x07, 0x01, 0x07, 0x05, 0x01, 0x07] =
        [0x4c, 0x01, 0x07, 0x02, 0x01, 0x07, 0x05, 0x01, 0x07] := by
  refine ⟨by decide, ?_⟩
  rw [(deleteAll_pushData_filters (by decide) _).1]
  decide +kernel

/-- Of a pattern of two instructions this does not hold: the removal can bring together
another occurrence. -/
example : deleteAll [0x51, 0x52] [0x51, 0x51, 0x52, 0x52] = [0x51, 0x52] := by
  decide +kernel

end Script

end SpendCheck
