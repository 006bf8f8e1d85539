import SpendCheck.Curve.Modular

namespace SpendCheck.Curve

/-- A pair of coordinates. -/
structure Point where
  x : Nat
  y : Nat
deriving DecidableEq, Repr

/-- The right-hand side of the curve equation. -/
def equation (x : Nat) : Nat :=
  (x * x * x + 7) % fieldPrime

/-- The coordinates are field elements and satisfy the curve equation. -/
def Point.isOnCurve (p : Point) : Bool :=
  p.x < fieldPrime && p.y < fieldPrime && times p.y p.y == equation p.x

/-- The generator of the group. -/
def generator : Point where
  x := 0x79be667ef9dcbbac55a06295ce870b07029bfcdb2dce28d959f2815b16f81798
  y := 0x483ada7726a3c4655da4fbfc0e1108a8fd17b448a68554199c47d08ffb10d4b8

/-- A group element in weighted coordinates: `(x / z², y / z³)`, or the neutral
    element if `z` is zero. -/
structure Weighted where
  x : Nat
  y : Nat
  z : Nat

namespace Weighted

/-- The neutral element. -/
def zero : Weighted := ⟨1, 1, 0⟩

/-- A point as a group element. -/
def ofPoint (p : Point) : Weighted := ⟨p.x, p.y, 1⟩

/-- The coordinates of a group element other than the neutral one. -/
def toPoint? (p : Weighted) : Option Point :=
  if p.z = 0 then none
  else
    let w := inverse fieldPrime p.z
    let w2 := times w w
    some ⟨times p.x w2, times p.y (times w2 w)⟩

/-- Twice a group element. -/
def double (p : Weighted) : Weighted :=
  if p.z = 0 ∨ p.y = 0 then zero
  else
    let xx := times p.x p.x
    let yy := times p.y p.y
    let d := times 4 (times p.x yy)
    let e := times 3 xx
    let x := minus (times e e) (2 * d)
    ⟨x, minus (times e (minus d x)) (times 8 (times yy yy)), times 2 (times p.y p.z)⟩

/-- The sum of two group elements. -/
def add (p q : Weighted) : Weighted :=
  if p.z = 0 then q
  else if q.z = 0 then p
  else
    let pzz := times p.z p.z
    let qzz := times q.z q.z
    let u := times p.x qzz
    let v := times q.x pzz
    let s := times p.y (times q.z qzz)
    let t := times q.y (times p.z pzz)
    if u = v then if s = t then double p else zero
    else
      let h := minus v u
      let r := minus t s
      let hh := times h h
      let hhh := times h hh
      let w := times u hh
      let x := minus (minus (times r r) hhh) (2 * w)
      ⟨x, minus (times r (minus w x)) (times s hhh), times h (times p.z q.z)⟩

/-- A sum of multiples of two group elements, with factors below 2^256. -/
def combine (a : Nat) (p : Weighted) (b : Nat) (q : Weighted) : Weighted :=
  let both := add p q
  ((bits a).zip (bits b)).foldl (fun sum bit =>
    let twice := double sum
    match bit with
    | (true, true) => add twice both
    | (true, false) => add twice p
    | (false, true) => add twice q
    | (false, false) => twice) zero

end Weighted

/-- A multiple of the generator, if it is not the neutral element. -/
def generatorMultiple? (factor : Nat) : Option Point :=
  (Weighted.combine factor (.ofPoint generator) 0 .zero).toPoint?

end SpendCheck.Curve
