import SpendCheck.Hash.Digest
import SpendCheck.Machine.Stack
import SpendCheck.Script.Operation

namespace SpendCheck

open Stack

/-- The number of a truth value. -/
def Number.ofTruth (value : Bool) : Int :=
  if value then 1 else 0

/-- The result of an operation on one number. -/
def UnaryOperation.eval : UnaryOperation → Int → Int
  | .add1, a => a + 1
  | .sub1, a => a - 1
  | .negate, a => -a
  | .abs, a => a.natAbs
  | .not, a => Number.ofTruth (a == 0)
  | .notEqual0, a => Number.ofTruth (a != 0)

/-- The result of an operation on two numbers. -/
def BinaryOperation.eval : BinaryOperation → Int → Int → Int
  | .add, a, b => a + b
  | .sub, a, b => a - b
  | .boolAnd, a, b => Number.ofTruth (a != 0 && b != 0)
  | .boolOr, a, b => Number.ofTruth (a != 0 || b != 0)
  | .numEqual, a, b => Number.ofTruth (a == b)
  | .numNotEqual, a, b => Number.ofTruth (a != b)
  | .lessThan, a, b => Number.ofTruth (a < b)
  | .greaterThan, a, b => Number.ofTruth (b < a)
  | .lessThanOrEqual, a, b => Number.ofTruth (a ≤ b)
  | .greaterThanOrEqual, a, b => Number.ofTruth (b ≤ a)
  | .min, a, b => Min.min a b
  | .max, a, b => Max.max a b

/-- Replaces the top element by the result. The operand is read before anything
    is taken away. -/
def UnaryOperation.apply (op : UnaryOperation) : Stack → Outcome Stack
  | stack@(a :: rest) =>
    match Number.decode Number.maxSize a with
    | .error e => .failed e stack
    | .ok x => push (Number.encode (op.eval x)) rest
  | [] => .failed .invalidStackOperation []

/-- Replaces the two top elements by the result. The lower operand is read
    first, and both are read before anything is taken away. -/
def BinaryOperation.apply (op : BinaryOperation) : Stack → Outcome Stack
  | stack@(b :: a :: rest) =>
    match Number.decode Number.maxSize a, Number.decode Number.maxSize b with
    | .error e, _ => .failed e stack
    | .ok _, .error e => .failed e stack
    | .ok x, .ok y => push (Number.encode (op.eval x y)) rest
  | stack => .failed .invalidStackOperation stack

/-- Replaces a value and two bounds by whether the value is at least the lower
    bound and less than the upper one. -/
def Stack.within : Stack → Outcome Stack
  | stack@(upper :: lower :: value :: rest) =>
    match Number.decode Number.maxSize value, Number.decode Number.maxSize lower,
      Number.decode Number.maxSize upper with
    | .error e, _, _ => .failed e stack
    | .ok _, .error e, _ => .failed e stack
    | .ok _, .ok _, .error e => .failed e stack
    | .ok v, .ok l, .ok u => push (Number.ofBool (l ≤ v && v < u)) rest
  | stack => .failed .invalidStackOperation stack

/-- Replaces the two top elements by whether they are the same. -/
def Stack.equal : Stack → Outcome Stack
  | b :: a :: rest => push (Number.ofBool (b == a)) rest
  | stack => .failed .invalidStackOperation stack

/-- The digest that an operation computes. -/
def HashOperation.digest : HashOperation → Bytes → Bytes
  | .ripemd160 => Hash.ripemd160
  | .sha1 => Hash.sha1
  | .sha256 => Hash.sha256
  | .hash160 => Hash.hash160
  | .hash256 => Hash.hash256

/-- Replaces the top element by its digest. -/
def HashOperation.apply (op : HashOperation) : Stack → Outcome Stack
  | a :: rest => push (op.digest a) rest
  | [] => .failed .invalidStackOperation []

end SpendCheck
