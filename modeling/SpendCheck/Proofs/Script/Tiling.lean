import SpendCheck.Proofs.Script.Push

namespace SpendCheck

namespace Instruction

/-- The bytes of an instruction in a script: the opcode, then the length bytes of a push
whose opcode does not say itself how long it is, then the payload. -/
inductive LaidOut : Instruction → Bytes → Prop where
  | op {opcode : Opcode} (h : Opcode.pushData4 < opcode) : LaidOut (op opcode) [opcode]
  | direct {opcode : Opcode} {payload : Bytes} (h : opcode ≤ Opcode.pushDirectMax)
      (hlength : opcode.toNat = payload.length) : LaidOut (push opcode payload) (opcode :: payload)
  | sized {opcode : Opcode} {lengthBytes payload : Bytes}
      (h : (opcode, lengthBytes.length) ∈
        [(Opcode.pushData1, 1), (Opcode.pushData2, 2), (Opcode.pushData4, 4)])
      (hlength : lengthBytes.toNatLE = payload.length) :
      LaidOut (push opcode payload) (opcode :: lengthBytes ++ payload)

variable {instruction : Instruction} {bytes : Bytes}

theorem IsValid.laidOut (h : instruction.IsValid) : instruction.LaidOut instruction.bytes := by
  cases instruction with
  | op opcode => exact .op h
  | push opcode payload =>
    by_cases hdirect : opcode ≤ Opcode.pushDirectMax
    · rw [bytes_push_direct payload hdirect]
      exact .direct hdirect (h.length_payload_of_direct hdirect).symm
    · have hlength := Bytes.toNatLE_ofNatLE (h.length_payload_lt hdirect)
      refine .sized ?_ hlength
      rw [Bytes.length_ofNatLE]
      obtain rfl | rfl | rfl := Opcode.eq_pushData_of_not_direct hdirect h.1 <;> decide

/-- What is laid out in bytes is an instruction with these bytes. -/
theorem LaidOut.isValid (h : instruction.LaidOut bytes) :
    instruction.IsValid ∧ instruction.bytes = bytes := by
  cases h with
  | op h => exact ⟨h, rfl⟩
  | @direct opcode payload h hlength => exact ⟨isValid_push_direct h hlength.symm, bytes_push_direct payload h⟩
  | @sized opcode lengthBytes payload h hlength =>
    have hwidth : lengthBytes.length = lengthWidth opcode ∧ Opcode.pushDirectMax < opcode ∧
        opcode ≤ Opcode.pushData4 := by
      simp only [List.mem_cons, Prod.mk.injEq, List.not_mem_nil, or_false] at h
      obtain ⟨rfl, hlength⟩ | ⟨rfl, hlength⟩ | ⟨rfl, hlength⟩ := h <;> exact ⟨hlength, by decide⟩
    obtain ⟨hwidth, hsized, hpush⟩ := hwidth
    have hfits := Bytes.toNatLE_lt lengthBytes
    rw [hlength, hwidth] at hfits
    refine ⟨isValid_push_sized hpush hsized hfits, ?_⟩
    rw [Instruction.bytes, header, ← hwidth, ← hlength, Bytes.ofNatLE_toNatLE]

end Instruction

namespace Script

variable {script first second : Script} {found : List Instruction} {start : Nat}

/-- The parts of a script from an offset to the next one, from there to the one after it,
and so on. -/
def cut (script : Script) (start : Nat) : List Nat → List Bytes
  | [] => []
  | stop :: stops => (script.take stop).drop start :: cut script stop stops

/-- Instructions cover a script from its beginning to its end, or to a push that runs past
the end. They are laid out in the parts up to the offsets where they end, which lie in the
script one behind the other. The push begins where the last instruction ends, and no
instruction at all stands there. -/
structure Tiled (script : Script) (found : List Instruction) (stops : List Nat)
    (truncated? : Option TruncatedPush) : Prop where
  increasing : (0 :: stops).Pairwise (· < ·)
  within : ∀ stop ∈ stops, stop ≤ script.length
  laidOut : List.Forall₂ Instruction.LaidOut found (script.cut 0 stops)
  whole : truncated? = none → (script.cut 0 stops).flatten = script
  truncated : ∀ push, truncated? = some push →
    push.position = stops.getLast?.getD 0 ∧ push.position < script.length ∧
      (script.cut 0 stops).flatten ++ script.drop push.position = script ∧
      ∀ (instruction : Instruction) (bytes : Bytes), instruction.LaidOut bytes →
        ¬bytes <+: script.drop push.position

theorem ends_append (start : Nat) (first second : List Instruction) :
    ends start (first ++ second) =
      ends start first ++ ends (start + (first.flatMap Instruction.bytes).length) second := by
  induction first generalizing start with
  | nil => rfl
  | cons instruction rest ih =>
    rw [List.cons_append, ends, ih, List.flatMap_cons, List.length_append, Instruction.length_bytes,
      ← Nat.add_assoc]
    rfl

theorem ends_add (offset start : Nat) (found : List Instruction) :
    ends (offset + start) found = (ends start found).map (offset + ·) := by
  induction found generalizing start with
  | nil => rfl
  | cons instruction rest ih =>
    rw [ends, ends, List.map_cons, Nat.add_assoc, ih]

theorem length_ends (start : Nat) (found : List Instruction) :
    (ends start found).length = found.length := by
  induction found generalizing start with
  | nil => rfl
  | cons instruction rest ih => rw [ends, List.length_cons, List.length_cons, ih]

/-- Instructions end behind their beginning and not behind the last of them. -/
theorem lt_and_le_of_mem_ends {stop : Nat} (h : stop ∈ ends start found) :
    start < stop ∧ stop ≤ start + (found.flatMap Instruction.bytes).length := by
  induction found generalizing start with
  | nil => cases h
  | cons instruction rest ih =>
    have hpos := instruction.size_pos
    rw [List.flatMap_cons, List.length_append, Instruction.length_bytes]
    obtain rfl | hrest := List.mem_cons.1 h
    · omega
    · have hbounds := ih hrest
      omega

/-- The ends of instructions increase, as no instruction is empty. -/
theorem pairwise_ends (start : Nat) (found : List Instruction) :
    (start :: ends start found).Pairwise (· < ·) := by
  induction found generalizing start with
  | nil => exact List.pairwise_singleton _ _
  | cons instruction rest ih =>
    exact List.pairwise_cons.2 ⟨fun stop hstop => (lt_and_le_of_mem_ends hstop).1, ih _⟩

theorem getLast?_ends (start : Nat) (found : List Instruction) :
    (ends start found).getLast?.getD start = start + (found.flatMap Instruction.bytes).length := by
  obtain rfl | ⟨front, last, rfl⟩ := List.eq_nil_or_concat found
  · rfl
  · rw [List.concat_eq_append, ends_append, List.flatMap_append, List.length_append]
    simp [ends, Nat.add_assoc]

/-- Cut where its instructions end, a script falls into the bytes of these. -/
theorem cut_ends (before rest : Bytes) (found : List Instruction) :
    cut (before ++ (found.flatMap Instruction.bytes ++ rest)) before.length (ends before.length found) =
      found.map Instruction.bytes := by
  induction found generalizing before with
  | nil => rfl
  | cons instruction others ih =>
    have hstop : (before ++ instruction.bytes).length = before.length + instruction.size := by
      rw [List.length_append, Instruction.length_bytes]
    have hothers := ih (before ++ instruction.bytes)
    rw [hstop, List.append_assoc, ← List.append_assoc instruction.bytes, ← List.flatMap_cons] at hothers
    rw [ends, cut, hothers, List.map_cons]
    congr 1
    rw [List.flatMap_cons, List.append_assoc, ← List.append_assoc before, ← hstop, List.take_left,
      List.drop_left]

/-- Behind the last whole instruction no other one can be read. -/
theorem read?_tail (script : Script) : Instruction.read? script.tail = none := by
  cases hread : Instruction.read? script.tail with
  | none => rfl
  | some read =>
    have hdecode := decode_of_read?_eq_some hread
    rw [decode_tail] at hdecode
    cases hdecode

/-- Where no instruction was read, none stands. -/
theorem not_prefix_tail {instruction : Instruction} {bytes : Bytes} (h : instruction.LaidOut bytes)
    (script : Script) : ¬bytes <+: script.tail := by
  rintro ⟨rest, htail⟩
  obtain ⟨hvalid, rfl⟩ := h.isValid
  have hread := Instruction.read?_bytes_append hvalid rest
  rw [htail, read?_tail] at hread
  cases hread

theorem truncatedPush?_eq_none_iff : script.truncatedPush? = none ↔ script.tail = [] := by
  unfold truncatedPush?
  split
  · next hempty => exact iff_of_true rfl (List.isEmpty_iff.1 hempty)
  · next hleft => exact iff_of_false (Option.some_ne_none _) fun htail => hleft (List.isEmpty_iff.2 htail)

/-- The push that runs past the end begins where the last instruction ends. -/
theorem truncatedPush?_of_tail_ne_nil (h : script.tail ≠ []) :
    script.truncatedPush? = some ⟨(script.instructions.flatMap Instruction.bytes).length⟩ := by
  have hlength := congrArg List.length (flatMap_instructions_append_tail script)
  rw [List.length_append] at hlength
  have hposition : script.length - script.tail.length =
      (script.instructions.flatMap Instruction.bytes).length := by omega
  rw [truncatedPush?, if_neg (mt List.isEmpty_iff.1 h), hposition]

/-- A script is tiled by what is read from it. -/
theorem tiled (script : Script) :
    script.Tiled script.instructions (ends 0 script.instructions) script.truncatedPush? := by
  have hscript := flatMap_instructions_append_tail script
  have hcut : script.cut 0 (ends 0 script.instructions) = script.instructions.map Instruction.bytes := by
    have hparts := cut_ends [] script.tail script.instructions
    rwa [List.nil_append, hscript] at hparts
  have hflatten : (script.cut 0 (ends 0 script.instructions)).flatten =
      script.instructions.flatMap Instruction.bytes := by
    rw [hcut, List.flatMap_def]
  have hlength := congrArg List.length hscript
  rw [List.length_append] at hlength
  constructor
  · exact pairwise_ends 0 _
  · intro stop hstop
    have hle := (lt_and_le_of_mem_ends hstop).2
    omega
  · rw [hcut, List.forall₂_map_right_iff, List.forall₂_same]
    exact fun instruction hmem => (isValid_of_mem_instructions hmem).laidOut
  · intro hnone
    rw [hflatten, flatMap_instructions_of_tail_eq_nil (truncatedPush?_eq_none_iff.1 hnone)]
  · intro push hpush
    have htail : script.tail ≠ [] := by
      intro hnil
      rw [truncatedPush?_eq_none_iff.2 hnil] at hpush
      cases hpush
    rw [truncatedPush?_of_tail_ne_nil htail] at hpush
    obtain rfl := Option.some.inj hpush
    have hdrop : script.drop (script.instructions.flatMap Instruction.bytes).length = script.tail := by
      have hbehind := congrArg (List.drop (script.instructions.flatMap Instruction.bytes).length) hscript
      rw [List.drop_left] at hbehind
      exact hbehind.symm
    have hpos := List.length_pos_iff.2 htail
    have hlt : (script.instructions.flatMap Instruction.bytes).length < script.length := by omega
    refine ⟨?_, hlt, ?_, ?_⟩
    · rw [getLast?_ends, Nat.zero_add]
    · rw [hflatten, hdrop, hscript]
    · rw [hdrop]
      exact fun instruction bytes hlaid => not_prefix_tail hlaid script

/-- What reading a script from its beginning yields at a time: an instruction and the offset
where it ends, or a push that runs past the end and the offset where it begins. -/
abbrev Yield := Except TruncatedPush Instruction × Nat

/-- All of it in order, the push as the last one. -/
def yields (script : Script) : List Yield :=
  (script.instructions.zip (ends 0 script.instructions)).map (fun read => (.ok read.1, read.2)) ++
    script.truncatedPush?.toList.map fun push => (.error push, push.position)

/-- The same, found so much further into a script. -/
def Yield.shift (offset : Nat) : Yield → Yield
  | (.ok instruction, stop) => (.ok instruction, offset + stop)
  | (.error push, start) => (.error ⟨offset + push.position⟩, offset + start)

theorem Yield.shift_zero : shift 0 = id := by
  funext read
  obtain ⟨push | instruction, position⟩ := read <;> simp [shift]

theorem Yield.shift_comp_shift (a b : Nat) : shift a ∘ shift b = shift (a + b) := by
  funext read
  obtain ⟨push | instruction, position⟩ := read <;> simp [shift, Nat.add_assoc]

/-- Behind a script that decodes to its end, the push that runs past the end is the one of the
second script. -/
theorem truncatedPush?_append (h : first.tail = []) (second : Script) :
    (first ++ second).truncatedPush? =
      second.truncatedPush?.map fun push => ⟨first.length + push.position⟩ := by
  have hlength := congrArg List.length (flatMap_instructions_append_tail second)
  rw [List.length_append] at hlength
  have hposition : (first ++ second).length - second.tail.length =
      first.length + (second.length - second.tail.length) := by
    rw [List.length_append]
    omega
  unfold truncatedPush?
  rw [tail_append h, hposition]
  split <;> rfl

/-- Behind a script that is read to its end, a second one is read as by itself. -/
theorem yields_append (h : first.tail = []) (second : Script) :
    (first ++ second).yields = first.yields ++ second.yields.map (Yield.shift first.length) := by
  have hnone : first.truncatedPush? = none := truncatedPush?_eq_none_iff.2 h
  have hends : ends 0 (first.instructions ++ second.instructions) =
      ends 0 first.instructions ++ (ends 0 second.instructions).map (first.length + ·) := by
    rw [ends_append, flatMap_instructions_of_tail_eq_nil h, Nat.zero_add, ← ends_add, Nat.add_zero]
  unfold yields
  rw [instructions_append h, hends, truncatedPush?_append h, hnone,
    List.zip_append (length_ends 0 first.instructions).symm, List.zip_map_right]
  cases second.truncatedPush? <;> simp [Yield.shift, Function.comp_def]

theorem yields_nil : yields [] = [] := by
  simp [yields, instructions, decode_nil, truncatedPush?, tail]

/-- The first instruction is yielded, and then what the rest yields, at positions behind it. -/
theorem yields_of_read?_eq_some {rest : Script} {instruction : Instruction}
    (h : Instruction.read? script = some (instruction, rest)) :
    script.yields = (.ok instruction, instruction.size) :: rest.yields.map (Yield.shift instruction.size) := by
  have hdecode := decode_bytes_append (Instruction.isValid_of_read? h) []
  rw [List.append_nil, decode_nil] at hdecode
  have htail : Script.tail instruction.bytes = [] := congrArg Prod.snd hdecode
  have hinstructions : Script.instructions instruction.bytes = [instruction] := congrArg Prod.fst hdecode
  have hfirst : yields instruction.bytes = [(.ok instruction, instruction.size)] := by
    simp [yields, hinstructions, truncatedPush?_eq_none_iff.2 htail, ends]
  rw [Instruction.eq_append_of_read? h, yields_append htail, hfirst, Instruction.length_bytes,
    List.singleton_append]

/-- Where no instruction is read, the error is yielded last. -/
theorem yields_of_read?_eq_none (hleft : script ≠ []) (h : Instruction.read? script = none) :
    script.yields = [(.error ⟨0⟩, 0)] := by
  have hdecode := decode_of_read?_eq_none h
  have htail : script.tail = script := congrArg Prod.snd hdecode
  have hinstructions : script.instructions = [] := congrArg Prod.fst hdecode
  have hpush : script.truncatedPush? = some ⟨0⟩ := by
    rw [truncatedPush?_of_tail_ne_nil (htail.symm ▸ hleft), hinstructions]
    rfl
  rw [yields, hinstructions, hpush]
  rfl

/-- Behind a push-only script the rest decides. -/
theorem isPushOnly_append (h : first.isPushOnly = true) (second : Script) :
    (first ++ second).isPushOnly = second.isPushOnly := by
  have hwhole := tail_of_isPushOnly h
  have hall : (first.instructions.all (·.opcode ≤ Opcode.sixteen)) = true := (Bool.and_eq_true_iff.1 h).1
  rw [isPushOnly, isPushOnly, instructions_append hwhole, tail_append hwhole, List.all_append, hall,
    Bool.true_and]

end Script

end SpendCheck
