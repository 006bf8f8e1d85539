import SpendCheck.Proofs.Guarded.Stack

namespace SpendCheck

/-- An operand is well inside of a signed 64-bit word. -/
theorem Number.natAbs_lt_of_decode {maxSize : Nat} {bytes : Bytes} {a : Int}
    (h : decode maxSize bytes = .ok a) : a.natAbs < 2 ^ (8 * maxSize) := by
  unfold decode at h
  split at h
  · cases h
  · next hlength =>
    cases h
    rw [natAbs_value]
    obtain rfl | hne := eq_or_ne bytes []
    · exact Nat.two_pow_pos _
    · exact (magnitude_lt hne).trans_le (Nat.pow_le_pow_right (by decide) (by omega))

namespace Guarded

open Checked Guarded.Action

/-! Every result of arithmetic has to fit into a signed 64-bit word. -/

/-- The result of an operation on one number. -/
def evalUnary : UnaryOperation → Int → Checked Int
  | .add1, a => int64 (a + 1)
  | .sub1, a => int64 (a - 1)
  | .negate, a => int64 (-a)
  | .abs, a => int64 a.natAbs
  | .not, a => return Number.ofTruth (a == 0)
  | .notEqual0, a => return Number.ofTruth (a != 0)

/-- The result of an operation on two numbers. -/
def evalBinary : BinaryOperation → Int → Int → Checked Int
  | .add, a, b => int64 (a + b)
  | .sub, a, b => int64 (a - b)
  | op, a, b => return op.eval a b

variable {a b : Int}

/-- Checked arithmetic on one operand of at most four bytes never leaves a machine word. -/
theorem evalUnary_eq_ok (op : UnaryOperation) (ha : a.natAbs < 2 ^ 32) :
    evalUnary op a = .ok (op.eval a) := by
  cases op with
  | add1 => exact int64_eq_ok (by omega) (by omega)
  | sub1 => exact int64_eq_ok (by omega) (by omega)
  | negate => exact int64_eq_ok (by omega) (by omega)
  | abs => exact int64_eq_ok (by omega) (by omega)
  | not => rfl
  | notEqual0 => rfl

/-- Checked arithmetic on two operands of at most four bytes never leaves a machine word. -/
theorem evalBinary_eq_ok (op : BinaryOperation) (ha : a.natAbs < 2 ^ 32) (hb : b.natAbs < 2 ^ 32) :
    evalBinary op a b = .ok (op.eval a b) := by
  cases op with
  | add => exact int64_eq_ok (by omega) (by omega)
  | sub => exact int64_eq_ok (by omega) (by omega)
  | _ => rfl

namespace Items

variable {stack rest : Stack}

/-- Replaces the top element by the result. -/
def unary (op : UnaryOperation) : Action Items Unit := do
  let a ← operand (← top 1)
  let result ← evalUnary op a
  drop
  push (Number.encode result)

/-- Replaces the two top elements by the result. -/
def binary (op : BinaryOperation) : Action Items Unit := do
  let a ← operand (← top 2)
  let b ← operand (← top 1)
  let result ← evalBinary op a b
  drop
  drop
  push (Number.encode result)

/-- Places a truth value on top. -/
def pushBool (value : Bool) : Action Items Unit :=
  push (Number.ofBool value)

/-- Replaces a value and two bounds by whether the value lies between them. -/
def within : Action Items Unit := do
  let value ← operand (← top 3)
  let lower ← operand (← top 2)
  let upper ← operand (← top 1)
  drop
  drop
  drop
  pushBool (lower ≤ value && value < upper)

/-- Replaces the two top elements by whether they are the same. -/
def equal : Action Items Unit := do
  require 2
  let b ← pop
  let a ← pop
  pushBool (b == a)

/-- Takes the top element away and fails with a given reason if it was false. -/
def verify (error : ScriptError) : Action Items Unit := do
  let value ← pop
  if !(← truthy value) then throw error

/-- Replaces the top element by its digest. -/
def hash (op : HashOperation) : Action Items Unit := do
  let data ← pop
  push (op.digest data)

/-- The operand is read where it is and taken away only when the result is known. It is so
narrow that no result leaves a machine word. -/
theorem exec_unary (op : UnaryOperation) (stack : Stack) :
    exec (unary op) stack.reverse = seen List.reverse (op.apply stack) := by
  rcases stack with _ | ⟨a, rest⟩
  · rfl
  rw [unary, exec_bind_of_ok (exec_top_of_getElem? rfl), exec_bind, exec_operand, UnaryOperation.apply]
  cases ha : Number.decode Number.maxSize a with
  | error e => rfl
  | ok x =>
    rw [ok_bind, resume_ok,
      exec_bind_of_ok (exec_lift_of_ok (evalUnary_eq_ok op (Number.natAbs_lt_of_decode ha))),
      exec_bind_of_ok exec_drop_cons]
    exact exec_push _ rest

/-- Both operands are read where they are, the lower one first, and no result of such narrow
operands leaves a machine word. -/
theorem exec_binary (op : BinaryOperation) (stack : Stack) :
    exec (binary op) stack.reverse = seen List.reverse (op.apply stack) := by
  rcases stack with _ | ⟨b, _ | ⟨a, rest⟩⟩
  · rfl
  · rfl
  rw [binary, exec_bind_of_ok (exec_top_of_getElem? rfl), exec_bind, exec_operand, BinaryOperation.apply]
  cases ha : Number.decode Number.maxSize a with
  | error e => rfl
  | ok x =>
    rw [ok_bind, resume_ok, exec_bind_of_ok (exec_top_of_getElem? rfl), exec_bind, exec_operand]
    cases hb : Number.decode Number.maxSize b with
    | error e => rfl
    | ok y =>
      rw [ok_bind, resume_ok,
        exec_bind_of_ok (exec_lift_of_ok (evalBinary_eq_ok op (Number.natAbs_lt_of_decode ha)
          (Number.natAbs_lt_of_decode hb))),
        exec_bind_of_ok exec_drop_cons, exec_bind_of_ok exec_drop_cons]
      exact exec_push _ rest

/-- The three operands are read where they are, from the lowest one up. -/
theorem exec_within (stack : Stack) :
    exec within stack.reverse = seen List.reverse stack.within := by
  rcases stack with _ | ⟨upper, _ | ⟨lower, _ | ⟨value, rest⟩⟩⟩
  iterate 3 rfl
  rw [within, exec_bind_of_ok (exec_top_of_getElem? rfl), exec_bind, exec_operand, Stack.within]
  cases Number.decode Number.maxSize value with
  | error e => rfl
  | ok v =>
    rw [ok_bind, resume_ok, exec_bind_of_ok (exec_top_of_getElem? rfl), exec_bind, exec_operand]
    cases Number.decode Number.maxSize lower with
    | error e => rfl
    | ok l =>
      rw [ok_bind, resume_ok, exec_bind_of_ok (exec_top_of_getElem? rfl), exec_bind, exec_operand]
      cases Number.decode Number.maxSize upper with
      | error e => rfl
      | ok u =>
        rw [ok_bind, resume_ok, exec_bind_of_ok exec_drop_cons, exec_bind_of_ok exec_drop_cons,
          exec_bind_of_ok exec_drop_cons]
        exact exec_push _ rest

theorem exec_equal (stack : Stack) : exec equal stack.reverse = seen List.reverse stack.equal := by
  rcases stack with _ | ⟨b, _ | ⟨a, rest⟩⟩
  iterate 2 exact exec_require_bind_of_lt (by simp)
  rw [equal, exec_bind_of_ok (exec_require_of_le (Nat.le_add_left 2 _)), exec_bind_of_ok exec_pop_cons,
    exec_bind_of_ok exec_pop_cons]
  exact exec_push _ rest

theorem exec_verify (error : ScriptError) (stack : Stack) :
    exec (verify error) stack.reverse = seen List.reverse (Stack.verify error stack) := by
  rcases stack with _ | ⟨a, rest⟩
  · rfl
  rw [verify, exec_bind_of_ok exec_pop_cons, exec_bind_of_ok (exec_lift_of_ok (truthy_eq_ok a)), Stack.verify]
  cases Number.truthy a <;> rfl

theorem exec_hash (op : HashOperation) (stack : Stack) :
    exec (hash op) stack.reverse = seen List.reverse (op.apply stack) := by
  rcases stack with _ | ⟨a, rest⟩
  · rfl
  rw [hash, exec_bind_of_ok exec_pop_cons]
  exact exec_push _ rest

end Items

end Guarded

end SpendCheck
