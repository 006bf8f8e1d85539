import SpendCheck.Machine.CheckMultiSig
import SpendCheck.Proofs.Guarded.Arithmetic
import SpendCheck.Proofs.Guarded.Script
import SpendCheck.Proofs.Guarded.Signature
import SpendCheck.Proofs.Machine.Step

namespace SpendCheck

/-- A machine whose stack has its top element last. -/
def Machine.upended (m : Machine) : Machine :=
  { m with stack := m.stack.reverse }

@[simp] theorem Machine.upended_executes (m : Machine) : m.upended.executes = m.executes := rfl

@[simp] theorem Machine.upended_conditions (m : Machine) : m.upended.conditions = m.conditions := rfl

@[simp] theorem Machine.upended_depth (m : Machine) : m.upended.depth = m.depth := by
  simp [depth, upended]

namespace Guarded

/-- What stays the same while a script is evaluated. The checker may fault. -/
structure Context where
  flags : Flags
  checker : Bytes → Bytes → Script → Checked Bool
  script : Script

end Guarded

/-- A checker that never faults. -/
def Checker.guarded (checker : Checker) (sig pubkey : Bytes) (code : Script) : Checked Bool :=
  return checker sig pubkey code

/-- A context whose checker never faults. -/
def Context.guarded (context : Context) : Guarded.Context :=
  ⟨context.flags, context.checker.guarded, context.script⟩

theorem Context.guarded_flags (context : Context) : context.guarded.flags = context.flags := rfl

theorem Context.guarded_checker (context : Context) (sig pubkey : Bytes) (code : Script) :
    context.guarded.checker sig pubkey code = .ok (context.checker sig pubkey code) := rfl

namespace Guarded

open Checked Guarded.Action Guarded.Items

variable {α : Type} {m : Machine}

/-- Runs an action on the stack of a machine. -/
def onItems (action : Action Items α) : Action Machine α := fun m => do
  let out ← exec action m.stack
  return (out.1, { m with stack := out.2 })

/-- An operation that does not look at positions. -/
def operation (op : Machine → Outcome Machine) : Action Machine Unit := fun m =>
  return ((op m).result, (op m).state)

theorem exec_onItems_of_ok {action : Action Items α} {result : Except ScriptError α} {t : Stack}
    (h : exec action m.stack.reverse = .ok (result, t.reverse)) :
    exec (onItems action) m.upended = .ok (result, { m with stack := t }.upended) := by
  change (exec action m.stack.reverse >>= _) = _
  rw [h]
  rfl

theorem exec_onItems_of_seen {action : Action Items Unit} {op : Stack → Outcome Stack}
    (h : exec action m.stack.reverse = seen List.reverse (op m.stack)) :
    exec (onItems action) m.upended = seen Machine.upended (m.onStack op) := by
  rw [exec_onItems_of_ok h, Machine.onStack]
  cases op m.stack <;> rfl

/-- An operation that does the same with its stacks upended is run as it stands. -/
theorem exec_operation {op : Machine → Outcome Machine}
    (h : op m.upended = (op m).map Machine.upended) :
    exec (operation op) m.upended = seen Machine.upended (op m) := by
  change Except.ok ((op m.upended).result, (op m.upended).state) = _
  rw [h]
  cases op m <;> rfl

theorem countOperations_upended (count : Nat) (m : Machine) :
    m.upended.countOperations count = (m.countOperations count).map Machine.upended := by
  unfold Machine.countOperations
  dsimp only [Machine.upended]
  split <;> rfl

theorem deletePush_eq_ok (data : Bytes) (code : Script) :
    deleteAll (Script.pushData data) code = .ok (code.deletePush data) :=
  deleteAll_eq_ok _ _

/-- Asks the checker, unless the encoding of the signature or of the key breaks a rule. -/
def ask (context : Context) (code : Script) (sig pubkey : Bytes) : Action Machine Bool := do
  adopt (← checkSignatureEncoding context.flags sig)
  adopt (checkKeyEncoding context.flags pubkey)
  let valid ← context.checker sig pubkey code
  modify fun m => { m with calls := m.calls ++ [⟨sig, pubkey, code, valid⟩] }
  return valid

/-- Replaces a signature and a key above it by whether the checker accepts them. -/
def checkSig (context : Context) (code : Script) : Action Machine Unit := do
  let sig ← onItems (top 2)
  let pubkey ← onItems (top 1)
  let code ← deleteAll (Script.pushData sig) code
  let valid ← ask context code sig pubkey
  onItems do
    drop
    drop
    pushBool valid

variable {context : SpendCheck.Context}

/-- A pair that breaks a rule is not shown to the checker. -/
theorem exec_ask_of_error {code : Script} {sig pubkey : Bytes} {e : ScriptError}
    (hask : context.ask code sig pubkey = .error e) :
    exec (ask context.guarded code sig pubkey) m = .ok (.error e, m) := by
  unfold SpendCheck.Context.ask at hask
  rw [ask, Context.guarded_flags,
    exec_bind_of_ok (exec_lift_of_ok (checkSignatureEncoding_eq_ok context.flags sig)), exec_bind, exec_adopt]
  cases hsig : SpendCheck.checkSignatureEncoding context.flags sig with
  | error e' =>
    rw [hsig] at hask
    cases hask
    rfl
  | ok _ =>
    rw [hsig] at hask
    rw [ok_bind, resume_ok, exec_bind, exec_adopt]
    cases hkey : checkKeyEncoding context.flags pubkey with
    | error e' =>
      rw [hkey] at hask
      cases hask
      rfl
    | ok _ =>
      rw [hkey] at hask
      cases hask

/-- A pair that breaks no rule is shown to the checker, whose answer is recorded. -/
theorem exec_ask_of_ok {code : Script} {sig pubkey : Bytes} {call : Call}
    (hask : context.ask code sig pubkey = .ok call) :
    exec (ask context.guarded code sig pubkey) m.upended =
      .ok (.ok call.valid, { m with calls := m.calls ++ [call] }.upended) := by
  obtain ⟨hsig, hkey, rfl⟩ := Context.ask_eq_ok_iff.1 hask
  rw [ask, Context.guarded_flags,
    exec_bind_of_ok (exec_lift_of_ok (checkSignatureEncoding_eq_ok context.flags sig)), hsig, hkey,
    exec_bind_of_ok (exec_adopt _), exec_bind_of_ok (exec_adopt _),
    exec_bind_of_ok (exec_lift_of_ok (context.guarded_checker sig pubkey code)),
    exec_bind_of_ok (exec_modify _), exec_pure]
  rfl

theorem exec_pushBool (value : Bool) (stack : Stack) :
    exec (pushBool value) stack.reverse = .ok (.ok (), (Number.ofBool value :: stack).reverse) := by
  rw [pushBool, exec_push]
  cases value <;> rfl

theorem exec_onItems_top {depth : Nat} :
    exec (onItems (top (depth + 1))) m.upended = .ok (Stack.top (depth + 1) m.stack, m.upended) :=
  exec_onItems_of_ok (exec_top depth)

theorem exec_onItems_top_of_getElem? {depth : Nat} {element : Bytes} (h : m.stack[depth]? = some element) :
    exec (onItems (top (depth + 1))) m.upended = .ok (.ok element, m.upended) :=
  exec_onItems_of_ok (exec_top_of_getElem? h)

theorem exec_onItems_popOr_nil (error : ScriptError) (h : m.stack = []) :
    exec (onItems (popOr error)) m.upended = .ok (.error error, m.upended) :=
  exec_onItems_of_ok (by rw [h, List.reverse_nil, exec_popOr_nil])

theorem exec_onItems_popOr_cons {element : Bytes} {rest : Stack} (error : ScriptError)
    (h : m.stack = element :: rest) :
    exec (onItems (popOr error)) m.upended = .ok (.ok element, { m with stack := rest }.upended) :=
  exec_onItems_of_ok (by rw [h, exec_popOr_cons])

/-- Signature and key are read where they are and taken away only after the answer. -/
theorem exec_checkSig (m : Machine) :
    exec (checkSig context.guarded (m.scriptCode context)) m.upended =
      seen Machine.upended (m.checkSig context) := by
  unfold Machine.checkSig
  rcases hstack : m.stack with _ | ⟨pubkey, _ | ⟨sig, rest⟩⟩
  · rw [checkSig, exec_bind, exec_onItems_top, hstack]
    rfl
  · rw [checkSig, exec_bind, exec_onItems_top, hstack]
    rfl
  · have hsig : m.stack[1]? = some sig := by rw [hstack]; rfl
    have hkey : m.stack[0]? = some pubkey := by rw [hstack]; rfl
    rw [checkSig, exec_bind_of_ok (exec_onItems_top_of_getElem? hsig),
      exec_bind_of_ok (exec_onItems_top_of_getElem? hkey),
      exec_bind_of_ok (exec_lift_of_ok (deletePush_eq_ok sig _))]
    dsimp only
    cases hask : context.ask ((m.scriptCode context).deletePush sig) sig pubkey with
    | error e =>
      rw [exec_bind, exec_ask_of_error hask]
      rfl
    | ok call =>
      rw [exec_bind_of_ok (exec_ask_of_ok hask)]
      have hreplace : exec (do
            drop
            drop
            pushBool call.valid) m.stack.reverse =
          .ok (.ok (), (Number.ofBool call.valid :: rest).reverse) := by
        rw [hstack, exec_bind_of_ok exec_drop_cons, exec_bind_of_ok exec_drop_cons, exec_pushBool]
      exact exec_onItems_of_ok (m := { m with calls := m.calls ++ [call] }) hreplace

end Guarded

end SpendCheck
