import Mathlib.Data.FinEnum
import SpendCheck.Assembly.Writing
import SpendCheck.Proofs.Assembly.Reading

namespace SpendCheck

namespace Assembly

variable {bytes : Bytes}

theorem isWord_literal (bytes : Bytes) : Text.IsWord (literal bytes) :=
  isWord_marked (Hex.spells_encode bytes)

theorem readWord_literal (h : bytes ≠ []) : readWord (literal bytes) = .ok bytes :=
  readWord_marked h (Hex.spells_encode bytes)

/-- The words of the opcodes that have a number or a name are read as these
opcodes: no name is a number, a literal or the name of another opcode. -/
theorem readWord_opcode :
    ∀ opcode : Opcode, ∀ word ∈ (numberWord? opcode).orElse fun _ => nameWord? opcode,
      readWord word = .ok [opcode] ∧ Text.IsWord word := by
  decide +kernel

theorem readWord_zero : readWord ['0'] = .ok [0x00] := by
  decide +kernel

theorem readWords_singleton {word : List Char} {script : Script} (h : readWord word = .ok script) :
    readWords [word] = .ok script :=
  (readWords_singleton_eq word).trans h

theorem readWords_append {first second : List (List Char)} {a b : Script}
    (hfirst : readWords first = .ok a) (hsecond : readWords second = .ok b) :
    readWords (first ++ second) = .ok (a ++ b) := by
  rw [readWords_append_eq_bind, hfirst, hsecond]
  rfl

/-- A push with a payload is read from two literals that meet at the payload. -/
theorem readWords_instructionWords (instruction : Instruction) :
    readWords (instructionWords instruction) = .ok instruction.bytes := by
  cases instruction with
  | push opcode payload =>
    have hheader (size : Nat) : Instruction.header opcode size ≠ [] := List.cons_ne_nil _ _
    rw [instructionWords]
    by_cases hpayload : payload = []
    · subst hpayload
      rw [if_neg (not_not_intro rfl)]
      by_cases hzero : opcode = 0x00
      · subst hzero
        exact readWords_singleton readWord_zero
      · rw [if_neg hzero, Instruction.bytes, List.append_nil]
        exact readWords_singleton (readWord_literal (hheader 0))
    · rw [if_pos hpayload]
      exact readWords_append (readWords_singleton (readWord_literal (hheader payload.length)))
        (readWords_singleton (readWord_literal hpayload))
  | op opcode =>
    rw [instructionWords]
    cases hword : (numberWord? opcode).orElse fun _ => nameWord? opcode with
    | none => exact readWords_singleton (readWord_literal (List.cons_ne_nil opcode []))
    | some word => exact readWords_singleton (readWord_opcode opcode word hword).1

/-- The words of an instruction have no blanks, so that blanks can separate them. -/
theorem isWord_of_mem_instructionWords {instruction : Instruction} {word : List Char}
    (h : word ∈ instructionWords instruction) : Text.IsWord word := by
  cases instruction with
  | push opcode payload =>
    rw [instructionWords] at h
    split at h
    · obtain rfl | hpayload := List.mem_cons.1 h
      · exact isWord_literal _
      · rw [List.mem_singleton.1 hpayload]
        exact isWord_literal payload
    · split at h
      · rw [List.mem_singleton.1 h]
        decide
      · rw [List.mem_singleton.1 h]
        exact isWord_literal _
  | op opcode =>
    rw [instructionWords] at h
    rw [List.mem_singleton.1 h]
    cases hword : (numberWord? opcode).orElse fun _ => nameWord? opcode with
    | none => exact isWord_literal [opcode]
    | some word => exact (readWord_opcode opcode word hword).2

/-- What is written for whole instructions is read as their bytes, one instruction after the
other. -/
theorem readWords_flatMap_instructionWords (instructions : List Instruction) :
    readWords (instructions.flatMap instructionWords) =
      .ok (instructions.flatMap Instruction.bytes) := by
  induction instructions with
  | nil => rfl
  | cons instruction rest ih =>
    simp only [List.flatMap_cons]
    exact readWords_append (readWords_instructionWords instruction) ih

/-- The words of a script are read as its bytes, the truncated end included. -/
theorem readWords_scriptWords (script : Script) : readWords (scriptWords script) = .ok script := by
  have hinstructions := readWords_flatMap_instructionWords script.instructions
  have htail : readWords (if script.tail.isEmpty then [] else [literal script.tail]) =
      .ok script.tail := by
    cases htail : script.tail with
    | nil => rfl
    | cons b rest => exact readWords_singleton (readWord_literal (List.cons_ne_nil b rest))
  have hjoined := readWords_append hinstructions htail
  rwa [Script.flatMap_instructions_append_tail] at hjoined

theorem isWord_of_mem_scriptWords {script : Script} {word : List Char}
    (h : word ∈ scriptWords script) : Text.IsWord word := by
  obtain hinstructions | htail := List.mem_append.1 h
  · obtain ⟨instruction, _, hword⟩ := List.mem_flatMap.1 hinstructions
    exact isWord_of_mem_instructionWords hword
  · split at htail
    · cases htail
    · rw [List.mem_singleton.1 htail]
      exact isWord_literal script.tail

/-- A script is read back from its text byte for byte. This holds of every byte
string: of opcodes without a name, of pushes whose length has more bytes than it
needs, and of a tail that begins with a push past the end. -/
theorem read_write (script : Script) : read (write script) = .ok script := by
  have hwords : Text.words ([' '].intercalate (scriptWords script)) = scriptWords script :=
    Text.words_intercalate fun _ hword => isWord_of_mem_scriptWords hword
  rw [read, write, String.toList_ofList, hwords, readWords_scriptWords]

/-- An empty push behind two length bytes, a number, a named opcode, one without
a name, and a push of three bytes of which one is there. -/
example : write [0x4d, 0, 0, 0x4f, 0x93, 0xff, 0x03, 0xab] = "0x4d0000 -1 ADD 0xff 0x03ab" := by
  decide +kernel

end Assembly

end SpendCheck
