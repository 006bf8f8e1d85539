namespace SpendCheck.Curve

/-- The prime of the coordinate field of secp256k1. -/
def fieldPrime : Nat := 0xfffffffffffffffffffffffffffffffffffffffffffffffffffffffefffffc2f

/-- The number of points of secp256k1, also a prime. -/
def groupOrder : Nat := 0xfffffffffffffffffffffffffffffffebaaedce6af48a03bbfd25e8cd0364141

/-- The 256 low bits of a number, the most significant first. -/
def bits (value : Nat) : List Bool :=
  (List.range 256).reverse.map value.testBit

/-- A power modulo some number, for exponents below 2^256. -/
def power (modulus base exponent : Nat) : Nat :=
  (bits exponent).foldl (fun result bit =>
    let square := result * result % modulus
    if bit then square * base % modulus else square) 1

/-- The inverse modulo a prime below 2^256; zero is left as it is. -/
def inverse (prime value : Nat) : Nat :=
  power prime value (prime - 2)

/-- The difference of two field elements. -/
def minus (a b : Nat) : Nat :=
  (a + (fieldPrime - b % fieldPrime)) % fieldPrime

/-- The product of two field elements. -/
def times (a b : Nat) : Nat :=
  a * b % fieldPrime

/-- A square root in the field, if there is one. As the prime is 3 modulo 4, a
    power of the argument is the only candidate up to the sign. -/
def squareRoot? (value : Nat) : Option Nat :=
  let root := power fieldPrime value ((fieldPrime + 1) / 4)
  if times root root = value % fieldPrime then some root else none

end SpendCheck.Curve
