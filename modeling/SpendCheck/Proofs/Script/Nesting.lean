import SpendCheck.Script.Instruction
import SpendCheck.Script.Operation

namespace SpendCheck

/-- How much deeper in conditionals a script is behind an opcode of a conditional. -/
def Branching.nesting : Branching → Int
  | ifTrue | ifFalse => 1
  | otherwise => 0
  | endIf => -1

/-- What an instruction does to conditionals, if it does anything. -/
def Instruction.branching? : Instruction → Option Branching
  | push _ _ => none
  | op opcode =>
    match Operation.ofOpcode opcode with
    | .branching kind => some kind
    | _ => none

theorem Instruction.branching?_of_ofOpcode {opcode : Opcode} {kind : Branching}
    (h : Operation.ofOpcode opcode = .branching kind) : (op opcode).branching? = some kind := by
  simp only [branching?, h]

theorem Instruction.branching?_eq_none {opcode : Opcode}
    (h : ∀ kind, Operation.ofOpcode opcode ≠ .branching kind) : (op opcode).branching? = none := by
  cases hoperation : Operation.ofOpcode opcode with
  | branching kind => exact absurd hoperation (h kind)
  | _ => simp only [branching?, hoperation]

/-- An instruction that does not fail a script merely by appearing in it: a push that is
not too long, or an opcode that is not disabled. -/
def Instruction.IsAdmissible : Instruction → Prop
  | push _ payload => payload.length ≤ maxElementSize
  | op opcode => Operation.ofOpcode opcode ≠ .disabled

/-- How much deeper in conditionals a script is behind an instruction. -/
def Instruction.nesting (instruction : Instruction) : Int :=
  instruction.branching?.elim 0 Branching.nesting

theorem Instruction.nesting_of_ofOpcode {opcode : Opcode} {kind : Branching}
    (h : Operation.ofOpcode opcode = .branching kind) : (op opcode).nesting = kind.nesting := by
  rw [nesting, branching?_of_ofOpcode h]
  rfl

theorem Instruction.nesting_eq_zero {opcode : Opcode}
    (h : ∀ kind, Operation.ofOpcode opcode ≠ .branching kind) : (op opcode).nesting = 0 := by
  rw [nesting, branching?_eq_none h]
  rfl

namespace Script

/-- How many conditionals are opened, less how many are closed. -/
def nesting : List Instruction → Int
  | [] => 0
  | instruction :: rest => instruction.nesting + nesting rest

@[simp] theorem nesting_nil : nesting [] = 0 := rfl

@[simp] theorem nesting_cons (instruction : Instruction) (rest : List Instruction) :
    nesting (instruction :: rest) = instruction.nesting + nesting rest := rfl

/-- With `depth` conditionals open before them, the instructions leave none open.
Along the way the number of open ones never falls below zero, and it is above zero
where one is turned to its other branch. -/
structure BalancedFrom (depth : Int) (instructions : List Instruction) : Prop where
  nonneg : ∀ before, before <+: instructions → 0 ≤ depth + nesting before
  turn_inside : ∀ before instruction, before ++ [instruction] <+: instructions →
    instruction.branching? = some .otherwise → 0 < depth + nesting before
  closed : depth + nesting instructions = 0

/-- The conditionals of the instructions are balanced. -/
abbrev Balanced (instructions : List Instruction) : Prop :=
  BalancedFrom 0 instructions

variable {depth : Int} {instruction : Instruction} {rest : List Instruction}

/-- What is balanced stays so behind its first instruction, at the depth that it leads to. -/
theorem BalancedFrom.of_cons (h : BalancedFrom depth (instruction :: rest)) :
    BalancedFrom (depth + instruction.nesting) rest := by
  constructor
  · intro before hprefix
    have hlonger := h.nonneg (instruction :: before) (List.cons_prefix_cons.2 ⟨rfl, hprefix⟩)
    rw [nesting_cons] at hlonger
    omega
  · intro before turn hprefix hturn
    have hlonger := h.turn_inside (instruction :: before) turn
      (List.cons_prefix_cons.2 ⟨rfl, hprefix⟩) hturn
    rw [nesting_cons] at hlonger
    omega
  · have hclosed := h.closed
    rw [nesting_cons] at hclosed
    omega

theorem BalancedFrom.of_append {before : List Instruction} (h : BalancedFrom depth (before ++ rest)) :
    BalancedFrom (depth + nesting before) rest := by
  induction before generalizing depth with
  | nil => simpa using h
  | cons instruction before ih =>
    rw [nesting_cons, ← Int.add_assoc]
    exact ih h.of_cons

/-- A conditional that is turned or closed is open. -/
theorem BalancedFrom.pos_of_cons (h : BalancedFrom depth (instruction :: rest))
    (hkind : instruction.branching? = some .otherwise ∨ instruction.branching? = some .endIf) :
    0 < depth := by
  have hfirst : [instruction] <+: instruction :: rest := ⟨rest, rfl⟩
  obtain hturn | hclose := hkind
  · simpa using h.turn_inside [] instruction hfirst hturn
  · have hnonneg := h.nonneg [instruction] hfirst
    simp only [nesting_cons, nesting_nil, Instruction.nesting, hclose, Option.elim,
      Branching.nesting] at hnonneg
    omega

/-- A script that is whole, has admissible instructions only, and balances its
conditionals. Nothing is said of what its instructions do. -/
structure WellFormed (script : Script) : Prop where
  whole : script.tail = []
  admissible : ∀ instruction ∈ script.instructions, instruction.IsAdmissible
  balanced : Balanced script.instructions

end Script

end SpendCheck
