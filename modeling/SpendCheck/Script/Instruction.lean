import SpendCheck.Script.Basic

namespace SpendCheck

/-- One element of a script. -/
inductive Instruction where
  /-- A direct push or one with length bytes, and what it pushes. -/
  | push (opcode : Opcode) (payload : Bytes)
  /-- Any other opcode, also those that push a small number. -/
  | op (opcode : Opcode)
deriving DecidableEq, Repr

namespace Instruction

/-- The opcode of an instruction. -/
def opcode : Instruction → Opcode
  | push opcode _ => opcode
  | op opcode => opcode

/-- What a push pushes. -/
def payload? : Instruction → Option Bytes
  | push _ payload => some payload
  | op _ => none

/-- How many length bytes follow a push opcode. -/
def lengthWidth (opcode : Opcode) : Nat :=
  if opcode = Opcode.pushData1 then 1
  else if opcode = Opcode.pushData2 then 2
  else if opcode = Opcode.pushData4 then 4
  else 0

/-- How many bytes a push with given length bytes pushes. -/
def payloadSize (opcode : Opcode) (lengthBytes : Bytes) : Nat :=
  if opcode ≤ Opcode.pushDirectMax then opcode.toNat else lengthBytes.toNatLE

/-- A push without its payload: the opcode and the length bytes. -/
def header (opcode : Opcode) (size : Nat) : Bytes :=
  opcode :: Bytes.ofNatLE (lengthWidth opcode) size

/-- The bytes of an instruction. -/
def bytes : Instruction → Bytes
  | push opcode payload => header opcode payload.length ++ payload
  | op opcode => [opcode]

/-- The number of bytes of an instruction. -/
def size : Instruction → Nat
  | push opcode payload => 1 + lengthWidth opcode + payload.length
  | op _ => 1

/-- Reads the first instruction of a script and leaves the rest. There is none
    in an empty script and before a push that runs past the end. -/
def read? : Script → Option (Instruction × Script)
  | [] => none
  | opcode :: rest =>
    if Opcode.pushData4 < opcode then some (op opcode, rest)
    else
      match Bytes.splitAt? (lengthWidth opcode) rest with
      | none => none
      | some (lengthBytes, rest) =>
        match Bytes.splitAt? (payloadSize opcode lengthBytes) rest with
        | none => none
        | some (payload, rest) => some (push opcode payload, rest)

@[simp] theorem length_header (opcode : Opcode) (size : Nat) :
    (header opcode size).length = 1 + lengthWidth opcode := by
  simp [header, Nat.add_comm]

@[simp] theorem length_bytes (instruction : Instruction) :
    instruction.bytes.length = instruction.size := by
  cases instruction <;> simp [bytes, size]

theorem size_pos (instruction : Instruction) : 0 < instruction.size := by
  cases instruction <;> simp only [size] <;> omega

theorem lengthWidth_of_direct {opcode : Opcode} (h : opcode ≤ Opcode.pushDirectMax) :
    lengthWidth opcode = 0 := by
  have h1 : opcode ≠ Opcode.pushData1 := fun heq => absurd (heq ▸ h) (by decide)
  have h2 : opcode ≠ Opcode.pushData2 := fun heq => absurd (heq ▸ h) (by decide)
  have h4 : opcode ≠ Opcode.pushData4 := fun heq => absurd (heq ▸ h) (by decide)
  simp only [lengthWidth, if_neg h1, if_neg h2, if_neg h4]

/-- The length bytes of a push that was read are those that its payload needs. -/
theorem lengthBytes_eq {opcode : Opcode} {lengthBytes : Bytes}
    (hwidth : lengthBytes.length = lengthWidth opcode) :
    Bytes.ofNatLE (lengthWidth opcode) (payloadSize opcode lengthBytes) = lengthBytes := by
  unfold payloadSize
  split
  · next hdirect =>
    rw [lengthWidth_of_direct hdirect] at hwidth ⊢
    simp [Bytes.ofNatLE, List.length_eq_zero_iff.1 hwidth]
  · rw [← hwidth]
    exact Bytes.ofNatLE_toNatLE lengthBytes

/-- The bytes of an instruction that was read stand in front of the rest. -/
theorem eq_append_of_read? {script rest : Script} {instruction : Instruction}
    (h : read? script = some (instruction, rest)) : script = instruction.bytes ++ rest := by
  unfold read? at h
  split at h
  · cases h
  · next opcode tail =>
    split at h
    · cases h
      rfl
    · split at h
      · cases h
      · next lengthBytes afterLength hlength =>
        split at h
        · cases h
        · next payload afterPayload hpayload =>
          cases h
          obtain ⟨rfl, hwidth⟩ := Bytes.splitAt?_eq_some_iff.1 hlength
          obtain ⟨rfl, hsize⟩ := Bytes.splitAt?_eq_some_iff.1 hpayload
          have hbytes := lengthBytes_eq hwidth
          simp [bytes, header, hsize, hbytes]

theorem length_lt_of_read? {script rest : Script} {instruction : Instruction}
    (h : read? script = some (instruction, rest)) : rest.length < script.length := by
  have hpos := instruction.size_pos
  rw [eq_append_of_read? h]
  simp only [List.length_append, length_bytes]
  omega

end Instruction

namespace Script

/-- The instructions of a script and the tail left over: it is empty, or begins
    with a push that runs past the end. -/
def decode (script : Script) : List Instruction × Bytes :=
  match _hread : Instruction.read? script with
  | none => ([], script)
  | some (instruction, rest) =>
    let decoded := decode rest
    (instruction :: decoded.1, decoded.2)
termination_by script.length
decreasing_by exact Instruction.length_lt_of_read? _hread

/-- The instructions of a script, up to a push that runs past the end. -/
def instructions (script : Script) : List Instruction :=
  (decode script).1

/-- What follows the last whole instruction. -/
def tail (script : Script) : Bytes :=
  (decode script).2

/-- The instructions and the tail make up the whole script. -/
theorem flatMap_instructions_append_tail (script : Script) :
    (instructions script).flatMap Instruction.bytes ++ tail script = script := by
  unfold instructions tail
  fun_induction decode script with
  | case1 script hread => simp
  | case2 script instruction rest hread decoded ih =>
    rw [Instruction.eq_append_of_read? hread]
    simp only [List.flatMap_cons, List.append_assoc, decoded, ih]

/-- The offsets at which consecutive instructions end. -/
def ends (start : Nat) : List Instruction → List Nat
  | [] => []
  | instruction :: rest => (start + instruction.size) :: ends (start + instruction.size) rest

/-- A script that ends in a push without enough bytes. -/
structure TruncatedPush where
  /-- The offset of the push. -/
  position : Nat
deriving DecidableEq, Repr

/-- The sentence shown to a user. -/
def TruncatedPush.message (error : TruncatedPush) : String :=
  "push at byte " ++ toString error.position ++ " runs past the end of the script"

/-- The push that runs past the end of a script, if there is one. -/
def truncatedPush? (script : Script) : Option TruncatedPush :=
  if (tail script).isEmpty then none
  else some ⟨script.length - (tail script).length⟩

end Script

end SpendCheck
