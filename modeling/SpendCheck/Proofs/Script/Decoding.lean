import SpendCheck.Script.Instruction

namespace SpendCheck

/-- A push that does not say in its opcode how much it pushes says so in length bytes. -/
theorem Opcode.eq_pushData_of_not_direct {opcode : Opcode} (h : ¬opcode ≤ Opcode.pushDirectMax)
    (hpush : opcode ≤ Opcode.pushData4) :
    opcode = Opcode.pushData1 ∨ opcode = Opcode.pushData2 ∨ opcode = Opcode.pushData4 := by
  have hlow : 75 < opcode.toNat := Nat.not_le.1 h
  have hhigh : opcode.toNat ≤ 78 := hpush
  simp only [← UInt8.toNat_inj]
  change opcode.toNat = 76 ∨ opcode.toNat = 77 ∨ opcode.toNat = 78
  omega

namespace Instruction

/-- An instruction that a script can hold: the opcode is of the right kind, and
the length bytes of a push say how long the payload is. -/
def IsValid : Instruction → Prop
  | push opcode payload => opcode ≤ Opcode.pushData4 ∧
      payloadSize opcode (Bytes.ofNatLE (lengthWidth opcode) payload.length) = payload.length
  | op opcode => Opcode.pushData4 < opcode

instance : DecidablePred IsValid
  | push _ _ => inferInstanceAs (Decidable (_ ∧ _))
  | op _ => inferInstanceAs (Decidable (_ < _))

theorem isValid_push_direct {opcode : Opcode} {payload : Bytes} (h : opcode ≤ Opcode.pushDirectMax)
    (hlength : payload.length = opcode.toNat) : (push opcode payload).IsValid := by
  refine ⟨UInt8.le_trans h (by decide), ?_⟩
  rw [payloadSize, if_pos h, hlength]

theorem bytes_push_direct {opcode : Opcode} (payload : Bytes) (h : opcode ≤ Opcode.pushDirectMax) :
    (push opcode payload).bytes = opcode :: payload := by
  simp [bytes, header, lengthWidth_of_direct h, Bytes.ofNatLE]

/-- Reading takes the instruction that was put in front of a script. -/
theorem read?_bytes_append {instruction : Instruction} (h : instruction.IsValid) (rest : Script) :
    read? (instruction.bytes ++ rest) = some (instruction, rest) := by
  cases instruction with
  | op opcode =>
    have hop : Opcode.pushData4 < opcode := h
    simp only [bytes, List.cons_append, List.nil_append, read?, if_pos hop]
  | push opcode payload =>
    obtain ⟨hle, hsize⟩ := h
    have hpush : ¬Opcode.pushData4 < opcode := UInt8.not_lt.2 hle
    have hlength : Bytes.splitAt? (lengthWidth opcode)
        (Bytes.ofNatLE (lengthWidth opcode) payload.length ++ (payload ++ rest)) =
          some (Bytes.ofNatLE (lengthWidth opcode) payload.length, payload ++ rest) :=
      Bytes.splitAt?_eq_some_iff.2 ⟨rfl, Bytes.length_ofNatLE _ _⟩
    have hpayload : Bytes.splitAt? payload.length (payload ++ rest) = some (payload, rest) :=
      Bytes.splitAt?_eq_some_iff.2 ⟨rfl, rfl⟩
    simp only [bytes, header, List.cons_append, List.append_assoc, read?, if_neg hpush, hlength,
      hsize, hpayload]

/-- What is read is an instruction whose opcode goes with its payload. -/
theorem isValid_of_read? {script rest : Script} {instruction : Instruction}
    (h : read? script = some (instruction, rest)) : instruction.IsValid := by
  unfold read? at h
  split at h
  · cases h
  · next opcode tail =>
    split at h
    · next hop =>
      cases h
      exact hop
    · next hpush =>
      split at h
      · cases h
      · next lengthBytes afterLength hlength =>
        split at h
        · cases h
        · next payload afterPayload hpayload =>
          cases h
          obtain ⟨-, hwidth⟩ := Bytes.splitAt?_eq_some_iff.1 hlength
          obtain ⟨-, hsize⟩ := Bytes.splitAt?_eq_some_iff.1 hpayload
          refine ⟨UInt8.not_lt.1 hpush, ?_⟩
          rw [hsize, lengthBytes_eq hwidth]

end Instruction

namespace Script

variable {instruction : Instruction}

/-- The bytes of an instruction are decoded as this instruction, whatever follows. -/
theorem decode_bytes_append (h : instruction.IsValid) (rest : Script) :
    decode (instruction.bytes ++ rest) = (instruction :: (decode rest).1, (decode rest).2) := by
  have hread := Instruction.read?_bytes_append h rest
  rw [decode]
  split
  · next hnone =>
    rw [hread] at hnone
    cases hnone
  · next hsome =>
    rw [hread] at hsome
    cases hsome
    rfl

theorem decode_of_read?_eq_none {script : Script} (h : Instruction.read? script = none) :
    decode script = ([], script) := by
  rw [decode]
  split
  · rfl
  · next hsome =>
    rw [h] at hsome
    cases hsome

theorem decode_of_read?_eq_some {script rest : Script}
    (h : Instruction.read? script = some (instruction, rest)) :
    decode script = (instruction :: (decode rest).1, (decode rest).2) := by
  rw [Instruction.eq_append_of_read? h]
  exact decode_bytes_append (Instruction.isValid_of_read? h) rest

theorem decode_nil : decode [] = ([], []) :=
  decode_of_read?_eq_none rfl

/-- What decoding yields are instructions as they are written: the opcode fits the length of the
payload. -/
theorem isValid_of_mem_instructions {script : Script} (h : instruction ∈ script.instructions) :
    instruction.IsValid := by
  unfold instructions at h
  fun_induction decode script with
  | case1 script hread => cases h
  | case2 script first rest hread decoded ih =>
    obtain rfl | hrest := List.mem_cons.1 h
    · exact Instruction.isValid_of_read? hread
    · exact ih hrest

theorem decode_tail (script : Script) : decode script.tail = ([], script.tail) := by
  unfold tail
  fun_induction decode script with
  | case1 script hread => exact decode_of_read?_eq_none hread
  | case2 script first rest hread decoded ih => exact ih

variable {instructions : List Instruction}

/-- Whole instructions in front of a script are decoded as they are, whatever
follows them. -/
theorem decode_flatMap_append (h : ∀ instruction ∈ instructions, instruction.IsValid) (rest : Script) :
    decode (instructions.flatMap Instruction.bytes ++ rest) =
      (instructions ++ (decode rest).1, (decode rest).2) := by
  induction instructions with
  | nil => rfl
  | cons first others ih =>
    rw [List.flatMap_cons, List.append_assoc, decode_bytes_append (h first List.mem_cons_self),
      ih fun other hother => h other (List.mem_cons_of_mem first hother), List.cons_append]

theorem decode_flatMap_append_tail (script : Script)
    (h : ∀ instruction ∈ instructions, instruction ∈ script.instructions) :
    decode (instructions.flatMap Instruction.bytes ++ script.tail) = (instructions, script.tail) := by
  rw [decode_flatMap_append (fun instruction hmem => isValid_of_mem_instructions (h instruction hmem)),
    decode_tail, List.append_nil]

/-- The part of a script from the end of an instruction on consists of the
instructions after it and the same tail. -/
theorem decode_drop {script : Script} {before after : List Instruction}
    (h : script.instructions = before ++ after) :
    decode (script.drop (before.flatMap Instruction.bytes).length) = (after, script.tail) := by
  have hscript := flatMap_instructions_append_tail script
  rw [h, List.flatMap_append, List.append_assoc] at hscript
  have hdrop : script.drop (before.flatMap Instruction.bytes).length =
      after.flatMap Instruction.bytes ++ script.tail := by
    rw [← hscript, List.drop_left, hscript]
  rw [hdrop, decode_flatMap_append_tail script]
  intro instruction hmem
  rw [h]
  exact List.mem_append_right before hmem

theorem flatMap_instructions_of_tail_eq_nil {script : Script} (h : script.tail = []) :
    script.instructions.flatMap Instruction.bytes = script := by
  simpa [h] using flatMap_instructions_append_tail script

/-- Behind a script without a tail a second one is decoded by itself. -/
theorem decode_append {first : Script} (h : first.tail = []) (second : Script) :
    decode (first ++ second) = (first.instructions ++ second.instructions, second.tail) := by
  conv => lhs; rw [← flatMap_instructions_of_tail_eq_nil h]
  exact decode_flatMap_append (fun _ hmem => isValid_of_mem_instructions hmem) second

theorem instructions_append {first : Script} (h : first.tail = []) (second : Script) :
    (first ++ second).instructions = first.instructions ++ second.instructions := by
  rw [instructions, decode_append h]

theorem tail_append {first : Script} (h : first.tail = []) (second : Script) :
    (first ++ second).tail = second.tail := by
  rw [tail, decode_append h]

end Script

end SpendCheck
