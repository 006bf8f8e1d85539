import SpendCheck.Script.Push

namespace SpendCheck.Script

/-- Removes every occurrence of a pattern that begins between two instructions.
    From a push that runs past the end on, all stays. -/
def deleteAll (pattern : Bytes) (script : Script) : Script :=
  if _hfound : pattern ≠ [] ∧ pattern.isPrefixOf script then
    deleteAll pattern (script.drop pattern.length)
  else
    match _hread : Instruction.read? script with
    | none => script
    | some (instruction, rest) => instruction.bytes ++ deleteAll pattern rest
termination_by script.length
decreasing_by
  · obtain ⟨hne, hprefix⟩ := _hfound
    have hle := (List.isPrefixOf_iff_prefix.1 hprefix).length_le
    have hpos := List.length_pos_iff.2 hne
    simp only [List.length_drop]
    omega
  · exact Instruction.length_lt_of_read? _hread

/-- Removes the pushes of a signature. -/
def deletePush (data : Bytes) (script : Script) : Script :=
  deleteAll (pushData data) script

/-- Removes the separators. Payloads and a tail that does not decode stay as
    they are. -/
def withoutSeparators (script : Script) : Script :=
  ((instructions script).filter (· != .op Opcode.codeSeparator)).flatMap Instruction.bytes ++
    tail script

end SpendCheck.Script
