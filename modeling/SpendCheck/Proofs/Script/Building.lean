import SpendCheck.Proofs.Script.Number
import SpendCheck.Proofs.Script.Push

namespace SpendCheck

namespace Script

/-- A piece that adds whole instructions to a script: an opcode is not one of a push of
data, data are not longer than a push can count, a number fits into a signed 64-bit word,
and raw bytes do not end in a push that runs past their end. -/
def Piece.IsWhole : Piece → Prop
  | .opcode code => Opcode.pushData4 < code
  | .value data => data.length < 2 ^ 32
  | .number n => -2 ^ 63 ≤ n ∧ n < 2 ^ 63
  | .raw bytes => Script.tail bytes = []

/-- The instructions that a piece stands for: the opcode, a shortest push of the data or
of the number, or the instructions of raw bytes. -/
inductive Piece.Yields : Piece → List Instruction → Prop
  | opcode (code : Opcode) : Yields (.opcode code) [.op code]
  | value {data : Bytes} {instruction : Instruction} (h : instruction.IsShortestPush data) :
      Yields (.value data) [instruction]
  | number {n : Int} {instruction : Instruction}
      (h : instruction.IsShortestPush (Number.encode n)) : Yields (.number n) [instruction]
  | raw (bytes : Bytes) : Yields (.raw bytes) (Script.instructions bytes)

variable {start : Script} {piece : Piece} {pieces : List Piece} {data : Bytes}

/-- The push that a builder chooses for some data is one instruction, and none that
pushes them is shorter. -/
theorem decode_pushValue (h : data.length < 2 ^ 32) :
    ∃ instruction : Instruction, instruction.IsShortestPush data ∧
      decode (pushValue data) = ([instruction], []) := by
  obtain ⟨instruction, hvalid, hbytes, hvalue⟩ := exists_instruction_of_pushValue h
  refine ⟨instruction, ⟨hvalue, fun script other hmem hother => ?_⟩, ?_⟩
  · rw [hbytes, Instruction.length_bytes]
    exact length_pushValue_le (isValid_of_mem_instructions hmem) hother
  · have hdecode := decode_bytes_append hvalid []
    rwa [List.append_nil, hbytes, decode_nil] at hdecode

/-- The bytes that a piece appends are whole instructions, and those that it stands for. -/
theorem Piece.yields_of_isWhole (h : piece.IsWhole) :
    Script.tail piece.bytes = [] ∧ piece.Yields (Script.instructions piece.bytes) := by
  unfold Script.tail Script.instructions
  cases piece with
  | opcode code =>
    have hvalid : (Instruction.op code).IsValid := h
    have hdecode : decode [code] = (.op code :: (decode []).1, (decode []).2) :=
      decode_bytes_append hvalid []
    rw [Piece.bytes, hdecode, decode_nil]
    exact ⟨rfl, .opcode code⟩
  | value data =>
    obtain ⟨instruction, hshortest, hdecode⟩ := decode_pushValue h
    rw [Piece.bytes, hdecode]
    exact ⟨rfl, .value hshortest⟩
  | number n =>
    obtain ⟨hlow, hhigh⟩ := h
    have hmagnitude : n.natAbs < 2 ^ (8 * 9 - 1) :=
      Nat.lt_of_le_of_lt (m := 2 ^ 63) (by omega) (by decide)
    have hlength : (Number.encode n).length < 2 ^ 32 :=
      ((Number.length_encode_le_iff (by decide) n).2 hmagnitude).trans_lt (by decide)
    obtain ⟨instruction, hshortest, hdecode⟩ := decode_pushValue hlength
    rw [Piece.bytes, pushNumber, hdecode]
    exact ⟨rfl, .number hshortest⟩
  | raw bytes => exact ⟨h, .raw bytes⟩

theorem build_cons (start : Script) (piece : Piece) (pieces : List Piece) :
    build start (piece :: pieces) = build (start ++ piece.bytes) pieces := rfl

/-- Decoding undoes building. Behind a script of whole instructions, pieces that add whole
instructions make a script that decodes to the end; its instructions are those of
the first script and then, piece by piece, those that the pieces stand for. -/
theorem build_decodes_to_pieces (hstart : start.tail = []) (hpieces : ∀ piece ∈ pieces, piece.IsWhole) :
    (build start pieces).tail = [] ∧
      ∃ added : List (List Instruction), List.Forall₂ Piece.Yields pieces added ∧
        (build start pieces).instructions = start.instructions ++ added.flatten := by
  induction pieces generalizing start with
  | nil => exact ⟨hstart, [], .nil, (List.append_nil _).symm⟩
  | cons piece pieces ih =>
    obtain ⟨hwhole, hyields⟩ := Piece.yields_of_isWhole (hpieces piece List.mem_cons_self)
    have hdecode := decode_append hstart piece.bytes
    have htail : (start ++ piece.bytes).tail = [] := (congrArg Prod.snd hdecode).trans hwhole
    obtain ⟨hbuilt, added, hadded, hinstructions⟩ := ih htail fun other hmem =>
      hpieces other (List.mem_cons_of_mem piece hmem)
    refine ⟨hbuilt, Script.instructions piece.bytes :: added, .cons hyields hadded, ?_⟩
    have hfirst : (start ++ piece.bytes).instructions =
        start.instructions ++ Script.instructions piece.bytes := congrArg Prod.fst hdecode
    rw [build_cons, hinstructions, hfirst, List.flatten_cons, List.append_assoc]

/-- Behind a script of one push: data that have an opcode of their own, the least 64-bit
number, an opcode, and a raw push with a length byte that it does not need. -/
theorem build_of_each_kind_decodes :
    Script.tail [0x01, 0x07] = [] ∧
    (∀ piece ∈ [Piece.value [0x81], .number (-2 ^ 63), .opcode 0x93, .raw [0x4c, 0x01, 0x05]],
      piece.IsWhole) ∧
    Script.tail (build [0x01, 0x07]
      [.value [0x81], .number (-2 ^ 63), .opcode 0x93, .raw [0x4c, 0x01, 0x05]]) = [] ∧
    ∃ added : List (List Instruction),
      List.Forall₂ Piece.Yields
        [.value [0x81], .number (-2 ^ 63), .opcode 0x93, .raw [0x4c, 0x01, 0x05]] added ∧
      added.flatten =
        [.op 0x4f, .push 0x09 [0, 0, 0, 0, 0, 0, 0, 0x80, 0x80], .op 0x93, .push 0x4c [0x05]] := by
  have hstart : Script.tail [0x01, 0x07] = [] := by decide +kernel
  have hpieces : ∀ piece ∈ [Piece.value [0x81], .number (-2 ^ 63), .opcode 0x93, .raw [0x4c, 0x01, 0x05]],
      piece.IsWhole := by
    simp only [List.forall_mem_cons, Piece.IsWhole]
    exact ⟨by decide, by decide, by decide, by decide +kernel, fun _ hmem => absurd hmem List.not_mem_nil⟩
  obtain ⟨htail, added, hadded, hinstructions⟩ := build_decodes_to_pieces hstart hpieces
  have hfirst : Script.instructions [0x01, 0x07] = [.push 0x01 [0x07]] := by decide +kernel
  have hbuilt : Script.instructions (build [0x01, 0x07]
      [.value [0x81], .number (-2 ^ 63), .opcode 0x93, .raw [0x4c, 0x01, 0x05]]) =
      [.push 0x01 [0x07], .op 0x4f, .push 0x09 [0, 0, 0, 0, 0, 0, 0, 0x80, 0x80], .op 0x93,
        .push 0x4c [0x05]] := by decide +kernel
  rw [hbuilt, hfirst] at hinstructions
  exact ⟨hstart, hpieces, htail, added, hadded, (List.cons.inj hinstructions).2.symm⟩

end Script

end SpendCheck
