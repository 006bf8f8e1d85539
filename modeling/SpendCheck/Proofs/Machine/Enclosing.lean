import SpendCheck.Proofs.Machine.Displacement
import SpendCheck.Proofs.Machine.Nesting

namespace SpendCheck.Machine

/-- The machine inside of one more conditional, whose branch is taken: it is open
above the `outer` outermost ones. By now `count` more operations have been counted. -/
def inside (outer count : Nat) (m : Machine) : Machine :=
  { m with
    conditions := m.conditions.insertIdx (m.conditions.length - outer) true
    opCount := m.opCount + count }

variable {context : Context} {m : Machine} {outer count : Nat}

@[simp] theorem inside_opCount : (m.inside outer count).opCount = m.opCount + count := rfl

@[simp] theorem inside_stack : (m.inside outer count).stack = m.stack := rfl

/-- A branch that is taken executes what would be executed without it. -/
@[simp] theorem executes_inside : (m.inside outer count).executes = m.executes := by
  have hperm := List.perm_insertIdx true m.conditions (Nat.sub_le m.conditions.length outer)
  exact (hperm.all_eq).trans (Bool.true_and _)

theorem insertIdx_cons_length_sub {condition : Bool} {others : List Bool}
    (houter : outer ≤ others.length) :
    (condition :: others).insertIdx ((condition :: others).length - outer) true =
      condition :: others.insertIdx (others.length - outer) true := by
  rw [List.length_cons, Nat.succ_sub houter, List.insertIdx_succ_cons]

/-- A conditional that is turned or closed inside of the branch has been opened there. -/
theorem apply_inside {kind : Branching} (houter : outer ≤ m.conditions.length)
    (hinside : kind = .otherwise ∨ kind = .endIf → outer < m.conditions.length) :
    kind.apply (m.inside outer count) = (kind.apply m).map (inside outer count) := by
  have hopen : ∀ expected, (m.inside outer count).openConditional expected =
      (m.openConditional expected).map (inside outer count) := by
    intro expected
    unfold openConditional
    rw [executes_inside, inside_stack]
    split
    · split
      · rfl
      · simp only [Outcome.map, inside, insertIdx_cons_length_sub houter]
    · simp only [Outcome.map, inside, insertIdx_cons_length_sub houter]
  have hopened : outer < m.conditions.length →
      ∃ condition others, m.conditions = condition :: others ∧ outer ≤ others.length := by
    intro hlt
    cases hconditions : m.conditions with
    | nil => simp [hconditions] at hlt
    | cons condition others =>
      rw [hconditions, List.length_cons] at hlt
      exact ⟨condition, others, rfl, Nat.lt_succ_iff.1 hlt⟩
  cases kind with
  | ifTrue => exact hopen true
  | ifFalse => exact hopen false
  | otherwise =>
    obtain ⟨condition, others, hconditions, hle⟩ := hopened (hinside (.inl rfl))
    simp only [Branching.apply, inside, hconditions, insertIdx_cons_length_sub hle, Outcome.map]
  | endIf =>
    obtain ⟨condition, others, hconditions, hle⟩ := hopened (hinside (.inr rfl))
    simp only [Branching.apply, inside, hconditions, insertIdx_cons_length_sub hle, Outcome.map]

/-- A branch that is taken, as another place for what is in it. -/
def enclosing (outer count : Nat) : Displacement where
  conditions := fun conditions => conditions.insertIdx (conditions.length - outer) true
  count := count

theorem hidden_enclosing (context : Context) (outer count : Nat) :
    (enclosing outer count).Hidden context context where
  executes_eq conditions := @executes_inside { stack := [], conditions := conditions } outer count
  drop_eq _ := rfl
  ask_eq _ _ _ := rfl
  nullDummy_eq := rfl

/-- Instructions whose conditionals are their own do the same inside of a branch that
is taken, as long as they do not count too many operations. -/
theorem steps_inside (context : Context) {instructions : List Instruction}
    (hroom : m.opCount + count ≤ maxOperations)
    (hbalanced : Script.BalancedFrom (m.conditions.length - outer) instructions) :
    UpToCount ((m.steps context instructions).map (inside outer count))
      ((m.inside outer count).steps context instructions) := by
  refine (hidden_enclosing context outer count).steps hroom ?_
  intro before instruction after left hsplit hleft kind here hkind hhere
  -- What is open there and not around the branch has been opened in it.
  rw [hsplit] at hbalanced
  have hrest := hbalanced.of_append
  have hlength := length_conditions_of_steps hleft
  have hdepth : (m.conditions.length : Int) - outer + Script.nesting before =
      here.conditions.length - outer := by
    rw [hhere]
    omega
  rw [hdepth] at hrest
  have hnonneg := hrest.nonneg [] List.nil_prefix
  rw [Script.nesting_nil] at hnonneg
  refine apply_inside (by omega) fun hturn => ?_
  have hpos : 0 < (here.conditions.length : Int) - outer := by
    apply hrest.pos_of_cons
    rwa [hkind, Option.some.injEq, Option.some.injEq]
  omega

end SpendCheck.Machine
