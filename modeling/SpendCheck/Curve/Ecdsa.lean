import SpendCheck.Curve.Point

namespace SpendCheck.Curve

/-- The two numbers of a signature. -/
structure Signature where
  r : Nat
  s : Nat
deriving DecidableEq, Repr

/-- Half the group order, rounded down. -/
def halfOrder : Nat := groupOrder / 2

/-- The form with the smaller second number: `s` and `n - s` are equally valid. -/
def Signature.normalized (sig : Signature) : Signature :=
  if halfOrder < sig.s then ⟨sig.r, groupOrder - sig.s⟩ else sig

/-- The signature belongs to a key and a message, given as a number. -/
def verify (key : Point) (message : Nat) (sig : Signature) : Bool :=
  if sig.r = 0 ∨ groupOrder ≤ sig.r ∨ sig.s = 0 ∨ groupOrder ≤ sig.s then false
  else
    let w := inverse groupOrder sig.s
    let a := message % groupOrder * w % groupOrder
    let b := sig.r * w % groupOrder
    match (Weighted.combine a (.ofPoint generator) b (.ofPoint key)).toPoint? with
    | none => false
    | some p => p.x % groupOrder == sig.r

/-- Signs a message with a secret and a nonce, unless the nonce is unsuitable. -/
def signWith? (secret message nonce : Nat) : Option Signature :=
  if nonce = 0 ∨ groupOrder ≤ nonce then none
  else
    match generatorMultiple? nonce with
    | none => none
    | some p =>
      let r := p.x % groupOrder
      let s := inverse groupOrder nonce * (message + r * secret) % groupOrder
      if r = 0 ∨ s = 0 then none else some (Signature.normalized ⟨r, s⟩)

end SpendCheck.Curve
