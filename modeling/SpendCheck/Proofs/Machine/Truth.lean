import SpendCheck.Machine.Evaluator
import SpendCheck.Proofs.Machine.Arithmetic
import SpendCheck.Proofs.Script.Shortest

namespace SpendCheck

namespace Number

variable {bytes rest : Bytes}

theorem truthy_cons (h : rest ≠ []) (b : UInt8) : truthy (b :: rest) = (b != 0 || truthy rest) := by
  cases rest with
  | nil => exact absurd rfl h
  | cons c rest => rfl

theorem truthy_zero_cons (rest : Bytes) : truthy (0 :: rest) = truthy rest := by
  cases rest <;> simp [truthy]

theorem truthy_replicate_zero_append (zeros : Nat) (bytes : Bytes) :
    truthy (List.replicate zeros 0 ++ bytes) = truthy bytes := by
  induction zeros with
  | zero => rfl
  | succ zeros ih => rw [List.replicate_succ, List.cons_append, truthy_zero_cons, ih]

/-- An element is false if it is zero in one of the forms of its size, of which one has a
sign. -/
theorem truthy_eq_false_iff : truthy bytes = false ↔
    ∃ zeros, bytes = List.replicate zeros 0 ∨ bytes = List.replicate zeros 0 ++ [0x80] := by
  constructor
  · intro h
    induction bytes with
    | nil => exact ⟨0, .inl rfl⟩
    | cons b rest ih =>
      obtain rfl | hrest := eq_or_ne rest []
      · obtain rfl | rfl : b = 0 ∨ b = 0x80 := by simpa [truthy, or_iff_not_imp_left] using h
        · exact ⟨1, .inl rfl⟩
        · exact ⟨0, .inr rfl⟩
      · obtain ⟨rfl, hfalse⟩ : b = 0 ∧ truthy rest = false := by simpa [truthy_cons hrest] using h
        obtain ⟨zeros, rfl | rfl⟩ := ih hfalse
        · exact ⟨zeros + 1, .inl rfl⟩
        · exact ⟨zeros + 1, .inr rfl⟩
  · rintro ⟨zeros, rfl | rfl⟩
    · have hzeros := truthy_replicate_zero_append zeros []
      rwa [List.append_nil] at hzeros
    · exact truthy_replicate_zero_append zeros [0x80]

/-- Truth looks at the bits besides the sign. -/
theorem truthy_iff_magnitude_ne_zero : truthy bytes = true ↔ magnitude bytes ≠ 0 := by
  induction bytes with
  | nil => simp [truthy, magnitude]
  | cons b rest ih =>
    obtain rfl | hrest := eq_or_ne rest []
    · have hlast : ∀ last : UInt8, truthy [last] = true ↔ magnitude [last] ≠ 0 := by decide +kernel
      exact hlast b
    · have hb : b = 0 ↔ b.toNat = 0 := UInt8.toNat_inj.symm
      rw [truthy_cons hrest, magnitude_cons hrest, Bool.or_eq_true, bne_iff_ne, ih, ne_eq, hb]
      omega

/-- The bytes are looked at one by one up to the first that is not zero, or put together
into a number: the answer is the same. -/
theorem truthy_iff_value_ne_zero : truthy bytes = true ↔ value bytes ≠ 0 := by
  rw [truthy_iff_magnitude_ne_zero, ← natAbs_value, Int.natAbs_ne_zero]

theorem truthy_eq (bytes : Bytes) : truthy bytes = (value bytes != 0) := by
  rw [Bool.eq_iff_iff, bne_iff_ne, truthy_iff_value_ne_zero]

end Number

theorem Stack.push_ofBool (truth : Bool) (stack : Stack) :
    push (Number.ofBool truth) stack = .done (Number.ofBool truth :: stack) := by
  cases truth <;> rfl

/-- With an element on top of others, whatever asks whether it is true acts on a given
answer: the two conditionals, where they are executed, the verification, the copy on
condition, and the test that a spend is accepted by. -/
structure Machine.Answers (context : Context) (m : Machine) (element : Bytes) (rest : Stack)
    (answer : Bool) : Prop where
  ifTrue : m.executes = true →
    m.execute context (.branching .ifTrue) =
      .done { m with stack := rest, conditions := answer :: m.conditions }
  ifFalse : m.executes = true →
    m.execute context (.branching .ifFalse) =
      .done { m with stack := rest, conditions := (!answer) :: m.conditions }
  verify : m.execute context .verify =
    if answer then .done { m with stack := rest } else .failed .verify { m with stack := rest }
  ifDup : m.execute context (.stack .ifDup) =
    .done { m with stack := if answer then element :: element :: rest else element :: rest }
  requireTrue : ∀ evaluator : Evaluator,
    evaluator.requireTrue m.stack =
      evaluator.leave (if answer then .ok () else .error .evalFalse) m.stack

variable {context : Context} {m left : Machine} {element lower upper : Bytes} {rest : Stack}

namespace Machine

/-- All of them ask the same question. -/
theorem answers_truthy (context : Context) (hstack : m.stack = element :: rest)
    (hsize : element.length ≤ maxElementSize) :
    m.Answers context element rest (Number.truthy element) where
  ifTrue := by
    intro hexecutes
    simp [execute, Branching.apply, openConditional, hexecutes, hstack]
  ifFalse := by
    intro hexecutes
    simp [execute, Branching.apply, openConditional, hexecutes, hstack]
  verify := by
    rw [execute, onStack, hstack, Stack.verify]
    cases Number.truthy element <;> rfl
  ifDup := by
    rw [execute, onStack, hstack, StackOperation.apply, Stack.push_of_le hsize]
    cases Number.truthy element <;> rfl
  requireTrue := by
    intro evaluator
    rw [Evaluator.requireTrue, hstack]
    rfl

/-- Arithmetic that succeeds has found all its operands, none of them too wide. -/
theorem operands_of_execute_eq_done {op : Arithmetic}
    (h : m.execute context op.operation = .done left) :
    op.arity ≤ m.stack.length ∧ ∀ operand ∈ m.stack.take op.arity, operand.length ≤ Number.maxSize := by
  obtain ⟨hfew, hwide⟩ := m.requiresOperands_arithmetic context op
  have hcount : op.arity ≤ m.stack.length := by
    by_contra hless
    rw [hfew (Nat.not_le.1 hless)] at h
    cases h
  refine ⟨hcount, fun operand hmem => ?_⟩
  by_contra hlong
  rw [hwide hcount ⟨operand, hmem, Nat.not_le.1 hlong⟩] at h
  cases h

theorem execute_notEqual0 (context : Context) (hstack : m.stack = element :: rest)
    (h : element.length ≤ Number.maxSize) :
    m.execute context (.unary .notEqual0) =
      .done { m with stack := Number.ofBool (Number.truthy element) :: rest } := by
  rw [execute, onStack, hstack]
  simp only [UnaryOperation.apply, Number.decode_of_le h, UnaryOperation.eval, ← Number.truthy_eq,
    Number.encode_ofTruth, Stack.push_ofBool]
  rfl

theorem execute_boolOr (context : Context) (hstack : m.stack = upper :: lower :: rest)
    (hlower : lower.length ≤ Number.maxSize) (hupper : upper.length ≤ Number.maxSize) :
    m.execute context (.binary .boolOr) =
      .done { m with stack := Number.ofBool (Number.truthy lower || Number.truthy upper) :: rest } := by
  rw [execute, onStack, hstack]
  simp only [BinaryOperation.apply, Number.decode_of_le hlower, Number.decode_of_le hupper,
    BinaryOperation.eval, ← Number.truthy_eq, Number.encode_ofTruth, Stack.push_ofBool]
  rfl

/-- To compare a number with zero succeeds if the element is narrow enough, and tells whether it
is true. -/
theorem execute_notEqual0_eq_done_iff :
    m.execute context (.unary .notEqual0) = .done left ↔
      ∃ element rest, m.stack = element :: rest ∧ element.length ≤ Number.maxSize ∧
        left = { m with stack := Number.ofBool (Number.truthy element) :: rest } := by
  constructor
  · intro h
    have hoperation : m.execute context (Arithmetic.unary .notEqual0).operation = .done left := h
    obtain ⟨hcount, hnarrow⟩ := operands_of_execute_eq_done hoperation
    obtain ⟨element, rest, hstack, -⟩ := Stack.exists_cons_of_le hcount
    have helement : element.length ≤ Number.maxSize := hnarrow element (by simp [Arithmetic.arity, hstack])
    rw [execute_notEqual0 context hstack helement] at h
    exact ⟨element, rest, hstack, helement, (Outcome.done.inj h).symm⟩
  · rintro ⟨element, rest, hstack, helement, rfl⟩
    exact execute_notEqual0 context hstack helement

/-- To join two numbers tells whether one of the elements is true. -/
theorem execute_boolOr_eq_done_iff :
    m.execute context (.binary .boolOr) = .done left ↔
      ∃ upper lower rest, m.stack = upper :: lower :: rest ∧ lower.length ≤ Number.maxSize ∧
        upper.length ≤ Number.maxSize ∧
        left = { m with stack := Number.ofBool (Number.truthy lower || Number.truthy upper) :: rest } := by
  constructor
  · intro h
    have hoperation : m.execute context (Arithmetic.binary .boolOr).operation = .done left := h
    obtain ⟨hcount, hnarrow⟩ := operands_of_execute_eq_done hoperation
    obtain ⟨upper, below, hstack, hbelow⟩ := Stack.exists_cons_of_le hcount
    obtain ⟨lower, rest, rfl, -⟩ := Stack.exists_cons_of_le hbelow
    have hlower : lower.length ≤ Number.maxSize := hnarrow lower (by simp [Arithmetic.arity, hstack])
    have hupper : upper.length ≤ Number.maxSize := hnarrow upper (by simp [Arithmetic.arity, hstack])
    rw [execute_boolOr context hstack hlower hupper] at h
    exact ⟨upper, lower, rest, hstack, hlower, hupper, (Outcome.done.inj h).symm⟩
  · rintro ⟨upper, lower, rest, hstack, hlower, hupper, rfl⟩
    exact execute_boolOr context hstack hlower hupper

end Machine

/-- To be true is to be a number other than zero. An element is false if all its bytes are
zero, where the last one may also be a bare sign; up to eight bytes these are those that are
read as zero, also where the bytes are looked at by position and the number is put together
in a 64-bit word. So the operations that ask whether an element is true do as its comparison
with zero says, wherever that accepts the element, and so does the disjunction of two. -/
theorem truth_is_not_zero :
    (∀ bytes : Bytes, Number.truthy bytes = false ↔
      ∃ zeros, bytes = List.replicate zeros 0 ∨ bytes = List.replicate zeros 0 ++ [0x80]) ∧
    (∀ bytes : Bytes, bytes.length ≤ 8 →
      ∃ number, Number.decode 8 bytes = .ok number ∧ (Number.truthy bytes = true ↔ number ≠ 0) ∧
        Guarded.decodeNumber 8 bytes = .ok (.ok number) ∧
        Guarded.truthy bytes = .ok (decide (number ≠ 0))) ∧
    ∀ (context : Context) (m : Machine),
      (∀ element rest, m.stack = element :: rest → element.length ≤ maxElementSize →
        m.Answers context element rest (Number.truthy element)) ∧
      (∀ left, m.execute context (.unary .notEqual0) = .done left ↔
        ∃ element rest, m.stack = element :: rest ∧ element.length ≤ Number.maxSize ∧
          left = { m with stack := Number.ofBool (Number.truthy element) :: rest }) ∧
      ∀ left, m.execute context (.binary .boolOr) = .done left ↔
        ∃ upper lower rest, m.stack = upper :: lower :: rest ∧ lower.length ≤ Number.maxSize ∧
          upper.length ≤ Number.maxSize ∧
          left = { m with stack := Number.ofBool (Number.truthy lower || Number.truthy upper) :: rest } := by
  refine ⟨fun bytes => Number.truthy_eq_false_iff, fun bytes hlength => ?_, fun context m =>
    ⟨fun element rest hstack hsize => Machine.answers_truthy context hstack hsize,
      fun left => Machine.execute_notEqual0_eq_done_iff, fun left => Machine.execute_boolOr_eq_done_iff⟩⟩
  have hread : Number.decode 8 bytes = .ok (Number.value bytes) := Number.decode_of_le hlength
  refine ⟨Number.value bytes, hread, Number.truthy_iff_value_ne_zero, ?_, ?_⟩
  · rw [Guarded.decodeNumber_eq_ok (Nat.le_refl 8), hread]
  · have hanswer : Number.truthy bytes = decide (Number.value bytes ≠ 0) := by
      rw [Bool.eq_iff_iff, decide_eq_true_iff, Number.truthy_iff_value_ne_zero]
    rw [Guarded.truthy_eq_ok, hanswer]

/-- A zero of two bytes with a sign, alone and in a disjunction with a number whose first
byte is zero. -/
theorem signed_zero_is_false :
    Number.truthy [0x00, 0x80] = false ∧
    (∃ number, Number.decode 8 [0x00, 0x80] = .ok number ∧ number = 0) ∧
    Machine.execute ⟨.standard, .refuseAll, []⟩ { stack := [[0x00, 0x80], [0x00, 0x01]] }
        (.unary .notEqual0) = .done { stack := [[], [0x00, 0x01]] } ∧
    Machine.execute ⟨.standard, .refuseAll, []⟩ { stack := [[0x00, 0x80], [0x00, 0x01]] }
        (.binary .boolOr) = .done { stack := [[1]] } ∧
    Machine.execute ⟨.standard, .refuseAll, []⟩ { stack := [[0x00, 0x80], [0x00, 0x01]] } .verify =
      .failed .verify { stack := [[0x00, 0x01]] } := by
  obtain ⟨hzeros, hnumbers, hoperations⟩ := truth_is_not_zero
  have hfalse : Number.truthy [0x00, 0x80] = false := (hzeros _).2 ⟨1, .inr rfl⟩
  obtain ⟨hanswers, hnotEqual, hor⟩ := hoperations ⟨.standard, .refuseAll, []⟩
    { stack := [[0x00, 0x80], [0x00, 0x01]] }
  refine ⟨hfalse, ?_, ?_, ?_, ?_⟩
  · obtain ⟨number, hread, htruth, -⟩ := hnumbers [0x00, 0x80] (by decide)
    refine ⟨number, hread, ?_⟩
    by_contra hnumber
    rw [htruth.2 hnumber] at hfalse
    cases hfalse
  · exact (hnotEqual _).2 ⟨_, _, rfl, by decide, rfl⟩
  · exact (hor _).2 ⟨_, _, _, rfl, by decide, by decide, rfl⟩
  · exact (hanswers _ _ rfl (by decide)).verify

end SpendCheck
