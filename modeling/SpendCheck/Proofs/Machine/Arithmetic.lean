import SpendCheck.Proofs.Guarded.Run
import SpendCheck.Proofs.Script.Number

namespace SpendCheck

namespace Number

/-- A number tells whether a statement holds: it is one, or else zero. -/
def Tells (statement : Prop) (number : Int) : Prop :=
  statement ∧ number = 1 ∨ ¬statement ∧ number = 0

theorem tells_ofTruth {truth : Bool} {statement : Prop} (h : truth = true ↔ statement) :
    Tells statement (ofTruth truth) := by
  cases truth with
  | true => exact .inl ⟨h.1 rfl, rfl⟩
  | false => exact .inr ⟨fun hholds => Bool.false_ne_true (h.2 hholds), rfl⟩

theorem natAbs_ofTruth_le (truth : Bool) : (ofTruth truth).natAbs ≤ 1 := by
  cases truth <;> decide

theorem encode_ofTruth (truth : Bool) : encode (ofTruth truth) = ofBool truth := by
  cases truth <;> decide +kernel

end Number

open Number

/-- What the result of an operation has to be for a number. -/
def UnaryOperation.Means : UnaryOperation → Int → Int → Prop
  | .add1, a, result => result = a + 1
  | .sub1, a, result => result = a - 1
  | .negate, a, result => result = -a
  | .abs, a, result => 0 ≤ result ∧ (result = a ∨ result = -a)
  | .not, a, result => Tells (a = 0) result
  | .notEqual0, a, result => Tells (a ≠ 0) result

/-- What the result of an operation has to be for two numbers, the lower one first. -/
def BinaryOperation.Means : BinaryOperation → Int → Int → Int → Prop
  | .add, a, b, result => result = a + b
  | .sub, a, b, result => result = a - b
  | .boolAnd, a, b, result => Tells (a ≠ 0 ∧ b ≠ 0) result
  | .boolOr, a, b, result => Tells (a ≠ 0 ∨ b ≠ 0) result
  | .numEqual, a, b, result => Tells (a = b) result
  | .numNotEqual, a, b, result => Tells (a ≠ b) result
  | .lessThan, a, b, result => Tells (a < b) result
  | .greaterThan, a, b, result => Tells (a > b) result
  | .lessThanOrEqual, a, b, result => Tells (a ≤ b) result
  | .greaterThanOrEqual, a, b, result => Tells (a ≥ b) result
  | .min, a, b, result => result ≤ a ∧ result ≤ b ∧ (result = a ∨ result = b)
  | .max, a, b, result => a ≤ result ∧ b ≤ result ∧ (result = a ∨ result = b)

/-- The result has the relation to its operand that the operation is described by. -/
theorem UnaryOperation.means_eval (kind : UnaryOperation) (a : Int) : kind.Means a (kind.eval a) := by
  cases kind with
  | add1 => rfl
  | sub1 => rfl
  | negate => rfl
  | abs => exact ⟨Int.natCast_nonneg _, by simp only [eval]; omega⟩
  | not => exact tells_ofTruth (by simp)
  | notEqual0 => exact tells_ofTruth (by simp)

/-- The result has the relation to both operands that the operation is described by. -/
theorem BinaryOperation.means_eval (kind : BinaryOperation) (a b : Int) :
    kind.Means a b (kind.eval a b) := by
  cases kind with
  | add => rfl
  | sub => rfl
  | min => exact ⟨Int.min_le_left a b, Int.min_le_right a b, by simp only [eval]; omega⟩
  | max => exact ⟨Int.le_max_left a b, Int.le_max_right a b, by simp only [eval]; omega⟩
  | _ => exact tells_ofTruth (by simp)

theorem UnaryOperation.natAbs_eval_le (kind : UnaryOperation) (a : Int) :
    (kind.eval a).natAbs ≤ a.natAbs + 1 := by
  cases kind with
  | not => exact (natAbs_ofTruth_le _).trans (Nat.le_add_left 1 _)
  | notEqual0 => exact (natAbs_ofTruth_le _).trans (Nat.le_add_left 1 _)
  | _ => simp only [eval]; omega

/-- No binary operation gives more than the sum of the two magnitudes, up to the 1 of a truth
value. -/
theorem BinaryOperation.natAbs_eval_le (kind : BinaryOperation) (a b : Int) :
    (kind.eval a b).natAbs ≤ a.natAbs + b.natAbs + 1 := by
  cases kind with
  | add => simp only [eval]; omega
  | sub => simp only [eval]; omega
  | min => simp only [eval]; omega
  | max => simp only [eval]; omega
  | _ => exact (natAbs_ofTruth_le _).trans (Nat.le_add_left 1 _)

/-- The arithmetic operations, by the number of their operands. -/
inductive Arithmetic where
  | unary (kind : UnaryOperation)
  | binary (kind : BinaryOperation)
  | within
deriving DecidableEq, Repr

namespace Arithmetic

open Stack

variable {stack : Stack}

def operation : Arithmetic → Operation
  | unary kind => .unary kind
  | binary kind => .binary kind
  | within => .within

/-- The number of operands. -/
def arity : Arithmetic → Nat
  | unary _ => 1
  | binary _ => 2
  | within => 3

/-- What the result has to be for the operands, the lowest one first. -/
def Means : Arithmetic → List Int → Int → Prop
  | unary kind, [a], result => kind.Means a result
  | binary kind, [a, b], result => kind.Means a b result
  | within, [a, lower, upper], result => Tells (lower ≤ a ∧ a < upper) result
  | _, _, _ => False

/-- The effect on the stack. -/
def apply : Arithmetic → Stack → Outcome Stack
  | unary kind => kind.apply
  | binary kind => kind.apply
  | within => Stack.within

/-- The operands that are on a stack, the lowest one first. -/
def operands (op : Arithmetic) (stack : Stack) : List Int :=
  (stack.take op.arity).reverse.map Number.value

theorem execute_operation (context : Context) (m : Machine) (op : Arithmetic) :
    m.execute context op.operation = m.onStack op.apply := by
  cases op <;> rfl

/-- With too few operands an operation changes nothing. -/
theorem apply_of_lt (op : Arithmetic) (h : stack.length < op.arity) :
    op.apply stack = .failed .invalidStackOperation stack := by
  cases op with
  | unary kind =>
    obtain rfl : stack = [] := List.length_eq_zero_iff.1 (Nat.lt_one_iff.1 h)
    rfl
  | binary kind =>
    match stack, h with
    | [], _ => rfl
    | [_], _ => rfl
  | within =>
    match stack, h with
    | [], _ => rfl
    | [_], _ => rfl
    | [_, _], _ => rfl

/-- A single operand that is too wide is an error, before any operand is taken away. -/
theorem apply_of_wide (op : Arithmetic) (hcount : op.arity ≤ stack.length)
    (hwide : ∃ operand ∈ stack.take op.arity, Number.maxSize < operand.length) :
    op.apply stack = .failed .unknown stack := by
  obtain ⟨operand, hmem, hlong⟩ := hwide
  cases op with
  | unary kind =>
    obtain ⟨a, rest, rfl, -⟩ := exists_cons_of_le hcount
    obtain rfl := List.mem_singleton.1 hmem
    simp only [apply, UnaryOperation.apply, decode_of_lt hlong]
  | binary kind =>
    obtain ⟨b, below, rfl, hbelow⟩ := exists_cons_of_le hcount
    obtain ⟨a, rest, rfl, -⟩ := exists_cons_of_le hbelow
    obtain ha | ha := Nat.lt_or_ge Number.maxSize a.length
    · simp only [apply, BinaryOperation.apply, decode_of_lt ha]
    · obtain rfl | rfl : operand = b ∨ operand = a := by simpa [arity] using hmem
      · simp only [apply, BinaryOperation.apply, decode_of_le ha, decode_of_lt hlong]
      · exact absurd ha (Nat.not_le.2 hlong)
  | within =>
    obtain ⟨upper, below, rfl, hbelow⟩ := exists_cons_of_le hcount
    obtain ⟨lower, deeper, rfl, hdeeper⟩ := exists_cons_of_le hbelow
    obtain ⟨a, rest, rfl, -⟩ := exists_cons_of_le hdeeper
    obtain ha | ha := Nat.lt_or_ge Number.maxSize a.length
    · simp only [apply, Stack.within, decode_of_lt ha]
    obtain hlower | hlower := Nat.lt_or_ge Number.maxSize lower.length
    · simp only [apply, Stack.within, decode_of_le ha, decode_of_lt hlower]
    obtain rfl | rfl | rfl : operand = upper ∨ operand = lower ∨ operand = a := by
      simpa [arity] using hmem
    · simp only [apply, Stack.within, decode_of_le ha, decode_of_le hlower, decode_of_lt hlong]
    · exact absurd hlower (Nat.not_le.2 hlong)
    · exact absurd ha (Nat.not_le.2 hlong)

theorem natAbs_value_lt {operand : Bytes} (h : operand.length ≤ Number.maxSize) :
    (Number.value operand).natAbs < 2 ^ 32 :=
  natAbs_lt_of_decode (decode_of_le h)

/-- Operands that are narrow enough give the result that the operation means, and this is narrow
enough to be pushed. -/
theorem apply_of_narrow (op : Arithmetic) (hcount : op.arity ≤ stack.length)
    (hnarrow : ∀ operand ∈ stack.take op.arity, operand.length ≤ Number.maxSize) :
    ∃ result, op.Means (op.operands stack) result ∧ result.natAbs < 2 ^ 39 ∧
      op.apply stack = .done (encode result :: stack.drop op.arity) := by
  cases op with
  | unary kind =>
    obtain ⟨a, rest, rfl, -⟩ := exists_cons_of_le hcount
    have ha : a.length ≤ Number.maxSize := hnarrow a (by simp [arity])
    have hbound : (kind.eval (Number.value a)).natAbs < 2 ^ 39 := by
      have heval := kind.natAbs_eval_le (Number.value a)
      have hvalue := natAbs_value_lt ha
      omega
    refine ⟨kind.eval (Number.value a), kind.means_eval _, hbound, ?_⟩
    simp only [apply, UnaryOperation.apply, decode_of_le ha, push_encode hbound]
    rfl
  | binary kind =>
    obtain ⟨b, below, rfl, hbelow⟩ := exists_cons_of_le hcount
    obtain ⟨a, rest, rfl, -⟩ := exists_cons_of_le hbelow
    have ha : a.length ≤ Number.maxSize := hnarrow a (by simp [arity])
    have hb : b.length ≤ Number.maxSize := hnarrow b (by simp [arity])
    have hbound : (kind.eval (Number.value a) (Number.value b)).natAbs < 2 ^ 39 := by
      have heval := kind.natAbs_eval_le (Number.value a) (Number.value b)
      have hlower := natAbs_value_lt ha
      have hupper := natAbs_value_lt hb
      omega
    refine ⟨kind.eval (Number.value a) (Number.value b), kind.means_eval _ _, hbound, ?_⟩
    simp only [apply, BinaryOperation.apply, decode_of_le ha, decode_of_le hb, push_encode hbound]
    rfl
  | within =>
    obtain ⟨upper, below, rfl, hbelow⟩ := exists_cons_of_le hcount
    obtain ⟨lower, deeper, rfl, hdeeper⟩ := exists_cons_of_le hbelow
    obtain ⟨a, rest, rfl, -⟩ := exists_cons_of_le hdeeper
    have ha : a.length ≤ Number.maxSize := hnarrow a (by simp [arity])
    have hlower : lower.length ≤ Number.maxSize := hnarrow lower (by simp [arity])
    have hupper : upper.length ≤ Number.maxSize := hnarrow upper (by simp [arity])
    let truth := decide (Number.value lower ≤ Number.value a) &&
      decide (Number.value a < Number.value upper)
    have hbound : (ofTruth truth).natAbs < 2 ^ 39 := (natAbs_ofTruth_le truth).trans_lt (by decide)
    refine ⟨ofTruth truth, tells_ofTruth (by simp [truth]), hbound, ?_⟩
    have hpush := push_encode hbound rest
    rw [encode_ofTruth] at hpush ⊢
    simp only [apply, Stack.within, decode_of_le ha, decode_of_le hlower, decode_of_le hupper]
    exact hpush

end Arithmetic

namespace Machine

variable {m : Machine}

/-- An operation fails and leaves everything as it is, unless there are so many operands
and none of them is too wide. -/
def RequiresOperands (context : Context) (m : Machine) (operation : Operation) (count : Nat) : Prop :=
  (m.stack.length < count → m.execute context operation = .failed .invalidStackOperation m) ∧
    (count ≤ m.stack.length → (∃ operand ∈ m.stack.take count, Number.maxSize < operand.length) →
      m.execute context operation = .failed .unknown m)

theorem requiresOperands_arithmetic (context : Context) (m : Machine) (op : Arithmetic) :
    m.RequiresOperands context op.operation op.arity := by
  rw [RequiresOperands, op.execute_operation]
  exact ⟨fun hfew => onStack_of_failed (op.apply_of_lt hfew),
    fun hcount hwide => onStack_of_failed (op.apply_of_wide hcount hwide)⟩

theorem execute_numEqualVerify (context : Context) (m : Machine) :
    m.execute context .numEqualVerify = m.onStack fun stack =>
      ((Arithmetic.binary .numEqual).apply stack).andThen (Stack.verify .numEqualVerify) := rfl

/-- The operands are looked at before the result is verified. -/
theorem requiresOperands_numEqualVerify (context : Context) (m : Machine) :
    m.RequiresOperands context .numEqualVerify 2 := by
  rw [RequiresOperands, execute_numEqualVerify]
  constructor
  · intro hfew
    refine onStack_of_failed ?_
    rw [(Arithmetic.binary .numEqual).apply_of_lt hfew, Outcome.failed_andThen]
  · intro hcount hwide
    refine onStack_of_failed ?_
    rw [(Arithmetic.binary .numEqual).apply_of_wide hcount hwide, Outcome.failed_andThen]

/-- Comparing numbers and verifying the answer leaves the stack without both of them. -/
theorem execute_numEqualVerify_of_narrow (context : Context) {a b : Bytes} {rest : Stack}
    (hstack : m.stack = b :: a :: rest) (ha : a.length ≤ Number.maxSize)
    (hb : b.length ≤ Number.maxSize) :
    m.execute context .numEqualVerify =
      if Number.value a = Number.value b then .done { m with stack := rest }
      else .failed .numEqualVerify { m with stack := rest } := by
  obtain ⟨result, hmeans, -, happly⟩ := @Arithmetic.apply_of_narrow (b :: a :: rest)
    (.binary .numEqual) (Nat.le_add_left 2 _) (by simp [Arithmetic.arity, ha, hb])
  rw [execute_numEqualVerify, onStack, hstack, happly, Outcome.done_andThen]
  -- The result is one or zero, and only one is true.
  obtain ⟨hequal, rfl⟩ | ⟨hdifferent, rfl⟩ : Tells (Number.value a = Number.value b) result := hmeans
  · have hone : encode 1 = ofBool true := encode_ofTruth true
    rw [if_pos hequal, hone]
    rfl
  · have hzero : encode 0 = ofBool false := encode_ofTruth false
    rw [if_neg hdifferent, hzero]
    rfl

end Machine

open Guarded Guarded.Action

/-- Arithmetic is that of the integers. Operations refuse too few operands, and operands of
more than four bytes, before they change anything. All others are replaced by the
shortest form of the integer that the operation means, which is at most five bytes long,
so that it can always be pushed, and reads back as that integer. The comparison that
verifies its result takes it away or fails, as the integers are equal or not. Computed on
signed 64-bit words, none of this leaves their range: the checked computation ends in
the same way. -/
theorem arithmetic_is_exact (context : Context) (m : Machine) :
    (∀ op : Arithmetic,
      m.RequiresOperands context op.operation op.arity ∧
        (op.arity ≤ m.stack.length →
          (∀ operand ∈ m.stack.take op.arity, operand.length ≤ Number.maxSize) →
          ∃ result, op.Means (op.operands m.stack) result ∧
            m.execute context op.operation =
              .done { m with stack := Number.encode result :: m.stack.drop op.arity } ∧
            (Number.encode result).length ≤ 5 ∧ Number.value (Number.encode result) = result) ∧
        exec (execute context.guarded (m.scriptCode context) op.operation) m.upended =
          seen Machine.upended (m.execute context op.operation)) ∧
    m.RequiresOperands context .numEqualVerify 2 ∧
    (∀ a b rest, m.stack = b :: a :: rest → a.length ≤ Number.maxSize → b.length ≤ Number.maxSize →
      m.execute context .numEqualVerify =
        if Number.value a = Number.value b then .done { m with stack := rest }
        else .failed .numEqualVerify { m with stack := rest }) ∧
    exec (execute context.guarded (m.scriptCode context) .numEqualVerify) m.upended =
      seen Machine.upended (m.execute context .numEqualVerify) := by
  refine ⟨fun op => ⟨m.requiresOperands_arithmetic context op, ?_, exec_execute _ m⟩,
    m.requiresOperands_numEqualVerify context, fun a b rest => Machine.execute_numEqualVerify_of_narrow context,
    exec_execute _ m⟩
  intro hcount hnarrow
  obtain ⟨result, hmeans, hbound, happly⟩ := op.apply_of_narrow hcount hnarrow
  refine ⟨result, hmeans, ?_, (length_encode_le_iff (by decide) result).2 hbound, value_encode result⟩
  rw [op.execute_operation]
  exact Machine.onStack_of_done happly

/-- The sum of two of the largest operands takes a byte more than they do. Both forms of
zero are equal, and a fifth byte is refused although it changes no number. -/
theorem sum_of_largest_operands :
    Machine.execute ⟨.standard, .refuseAll, []⟩
        { stack := [[0xff, 0xff, 0xff, 0x7f], [0xff, 0xff, 0xff, 0x7f], [0x07]] } (.binary .add) =
      .done { stack := [[0xfe, 0xff, 0xff, 0xff, 0x00], [0x07]] } ∧
    Machine.execute ⟨.standard, .refuseAll, []⟩ { stack := [[0x80], [], [0x07]] } .numEqualVerify =
      .done { stack := [[0x07]] } ∧
    Machine.execute ⟨.standard, .refuseAll, []⟩ { stack := [[0x01, 0x00, 0x00, 0x00, 0x00]] }
        (.unary .add1) =
      .failed .unknown { stack := [[0x01, 0x00, 0x00, 0x00, 0x00]] } := by
  obtain ⟨hsum, -⟩ := arithmetic_is_exact ⟨.standard, .refuseAll, []⟩
    { stack := [[0xff, 0xff, 0xff, 0x7f], [0xff, 0xff, 0xff, 0x7f], [0x07]] }
  obtain ⟨-, -, hzeros, -⟩ := arithmetic_is_exact ⟨.standard, .refuseAll, []⟩
    { stack := [[0x80], [], [0x07]] }
  obtain ⟨hwide, -⟩ := arithmetic_is_exact ⟨.standard, .refuseAll, []⟩
    { stack := [[0x01, 0x00, 0x00, 0x00, 0x00]] }
  obtain ⟨-, hadd, -⟩ := hsum (.binary .add)
  obtain ⟨result, hmeans, hdone, -⟩ := hadd (by decide) (by decide)
  obtain rfl : result = 4294967294 := hmeans
  obtain ⟨⟨-, hrefused⟩, -⟩ := hwide (.unary .add1)
  refine ⟨?_, hzeros [] [0x80] [[0x07]] rfl (by decide) (by decide), hrefused (by decide) (by decide)⟩
  rw [show Number.encode 4294967294 = [0xfe, 0xff, 0xff, 0xff, 0x00] by decide +kernel] at hdone
  exact hdone

end SpendCheck
