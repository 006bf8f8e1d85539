import SpendCheck.Proofs.Guarded.Interpreter
import SpendCheck.Proofs.Guarded.SignatureHash
import SpendCheck.Proofs.Guarded.Transaction

namespace SpendCheck.Guarded

open Checked Guarded.Action

/-- Verifies an input with a position that was checked before. -/
def verifyInput (locking : Script) (tx : Transaction) (index : Nat) (flags : Flags) :
    Checked (Except SpendFailure Unit) := do
  let input ← get tx.inputs index
  let out ← exec (verify input.script locking) ⟨flags, accepts tx index, [], 0⟩
  match out.1 with
  | .error e => return .error (.ofScript e)
  | .ok () => return .ok ()

/-- Verifies that an input of an encoded transaction may spend an output with a given
locking script, and tells in detail why not. -/
def verifySpendDetailed (locking : Script) (txBytes : Bytes) (index : Nat) (bits : UInt32) :
    Checked (Except SpendFailure Unit) := do
  match ← parseTransaction txBytes with
  | .error e => return .error (.ofSetup e)
  | .ok tx =>
    if tx.inputs.length ≤ index then return .error (.ofSetup .inputIndex)
    match Flags.ofBits bits with
    | .error e => return .error (.ofSetup e)
    | .ok flags => verifyInput locking tx index flags

/-- Verifies that an input of an encoded transaction may spend an output with a given
locking script. -/
def verifySpend (locking : Script) (txBytes : Bytes) (index : Nat) (bits : UInt32) :
    Checked (Except SpendError Unit) := do
  match ← verifySpendDetailed locking txBytes index bits with
  | .error failure => return .error failure.error
  | .ok () => return .ok ()

/-- Evaluates a single script. -/
def evalScript (flags : Flags) (checker : Bytes → Bytes → Script → Checked Bool) (items : Items)
    (script : Script) : Checked Report :=
  Interpreter.run ⟨flags, checker, [], 0⟩ items script

theorem accepts_eq_guarded (tx : Transaction) (index : Nat) :
    accepts tx index = (Checker.ofInput tx index).guarded := by
  funext sig pubkey code
  exact accepts_eq_ok tx index sig pubkey code

/-- The input is there to be read, and what follows is the verification of its script. -/
theorem verifyInput_eq_ok (locking : Script) {tx : Transaction} {index : Nat} {input : Input}
    (flags : Flags) (h : tx.inputs[index]? = some input) :
    verifyInput locking tx index flags = .ok (match Spend.verify ⟨tx, index, input, flags⟩ locking with
      | .error e => .error (.ofScript e)
      | .ok () => .ok ()) := by
  have hverify := exec_verify { flags := flags, checker := .ofInput tx index } input.script locking
  rw [Evaluator.guarded, ← accepts_eq_guarded] at hverify
  rw [verifyInput, get_eq_ok_iff.2 h, ok_bind, hverify, told, ok_bind, Spend.verify, verifyScript]
  dsimp only
  cases (Evaluator.verify { flags := flags, checker := .ofInput tx index } input.script locking).result with
  | error e => rfl
  | ok _ => rfl

/-- No step of a verification faults, from reading the transaction to the last evaluation,
whatever the data are. -/
theorem verifySpendDetailed_eq_ok (locking : Script) (txBytes : Bytes) (index : Nat) (bits : UInt32) :
    verifySpendDetailed locking txBytes index bits =
      .ok (SpendCheck.verifySpendDetailed locking txBytes index bits) := by
  rw [verifySpendDetailed, SpendCheck.verifySpendDetailed, parseTransaction_eq_ok, ok_bind]
  cases htx : Transaction.parse txBytes with
  | error e =>
    have hparse : Spend.parse txBytes index bits = .error e := by
      rw [Spend.parse, htx]
      rfl
    rw [hparse]
    rfl
  | ok tx =>
    dsimp only
    by_cases houtside : tx.inputs.length ≤ index
    · have hparse : Spend.parse txBytes index bits = .error .inputIndex := by
        simp [Spend.parse, htx, Transaction.inputAt, List.getElem?_eq_none houtside, bind, Except.bind]
      rw [if_pos houtside, hparse]
      rfl
    have hinside : index < tx.inputs.length := Nat.not_le.1 houtside
    have hget := List.getElem?_eq_getElem hinside
    rw [if_neg houtside]
    cases hflags : Flags.ofBits bits with
    | error e =>
      have hparse : Spend.parse txBytes index bits = .error e := by
        simp [Spend.parse, htx, Transaction.inputAt, hget, hflags, bind, Except.bind]
      rw [hparse]
      rfl
    | ok flags =>
      have hparse : Spend.parse txBytes index bits = .ok ⟨tx, index, tx.inputs[index], flags⟩ := by
        simp [Spend.parse, htx, Transaction.inputAt, hget, hflags, bind, Except.bind, pure, Except.pure]
      rw [hparse]
      exact verifyInput_eq_ok locking flags hget

theorem verifySpend_eq_ok (locking : Script) (txBytes : Bytes) (index : Nat) (bits : UInt32) :
    verifySpend locking txBytes index bits = .ok (SpendCheck.verifySpend locking txBytes index bits) := by
  unfold verifySpend SpendCheck.verifySpend
  rw [verifySpendDetailed_eq_ok, ok_bind]
  cases SpendCheck.verifySpendDetailed locking txBytes index bits <;> rfl

/-- No input makes the verifier fault, and none makes a loop of it run on. Every access to a
part of a list, every difference, every shift and every result of signed arithmetic is
checked, and the checked verifier returns what the unchecked one returns: for every spend, and
for every script on every stack, with any checker that returns itself. -/
theorem verification_never_faults :
    (∀ (locking : Script) (txBytes : Bytes) (index : Nat) (bits : UInt32),
      verifySpend locking txBytes index bits = .ok (SpendCheck.verifySpend locking txBytes index bits)) ∧
    (∀ (evaluator : Evaluator) (items : Items) (script : Script),
      evaluator.guarded.run items script = .ok (evaluator.run items.reverse script).report) ∧
    (∀ (flags : Flags) (checker : Checker) (items : Items) (script : Script),
      evalScript flags checker.guarded items script =
        .ok (SpendCheck.evalScript flags checker items.reverse script).report) := by
  have hrun : ∀ (evaluator : Evaluator) (items : Items) (script : Script),
      evaluator.guarded.run items script = .ok (evaluator.run items.reverse script).report := by
    intro evaluator items script
    have heq := run_eq_ok evaluator items.reverse script
    rwa [List.reverse_reverse] at heq
  exact ⟨verifySpend_eq_ok, hrun, fun flags checker => hrun { flags := flags, checker := checker }⟩

end SpendCheck.Guarded
