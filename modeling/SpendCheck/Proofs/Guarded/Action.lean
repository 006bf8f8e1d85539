import SpendCheck.Machine.Stack
import SpendCheck.Proofs.Guarded.Access

namespace SpendCheck.Guarded

/-- A computation on a state that may fault. It may also fail with a reason, and then the
state stays visible. -/
abbrev Procedure (ε σ : Type) := ExceptT ε (StateT σ Checked)

/-- A procedure of the interpreter. -/
abbrev Action := Procedure ScriptError

namespace Action

variable {ε σ τ α β : Type}

/-- Runs an action on a state. -/
def exec (action : Procedure ε σ α) (s : σ) : Checked (Except ε α × σ) :=
  action.run.run s

/-- Goes on after an action that did not fault. -/
def resume (next : α → Procedure ε σ β) : Except ε α × σ → Checked (Except ε β × σ)
  | (.ok a, s) => exec (next a) s
  | (.error e, s) => .ok (.error e, s)

/-- Takes over the result of a computation without a state. -/
def adopt (result : Except ε α) : Procedure ε σ α :=
  match result with
  | .ok a => return a
  | .error e => throw e

/-- What an operation leaves, where an action sees its states in another form. -/
def seen (view : τ → σ) (o : Outcome τ) : Checked (Except ScriptError Unit × σ) :=
  .ok (o.result, view o.state)

@[simp] theorem seen_done (view : τ → σ) (t : τ) : seen view (.done t) = .ok (.ok (), view t) := rfl

@[simp] theorem seen_failed (view : τ → σ) (e : ScriptError) (t : τ) :
    seen view (.failed e t) = .ok (.error e, view t) := rfl

variable {action : Procedure ε σ α} {next : α → Procedure ε σ β} {s t : σ}

@[simp] theorem exec_bind : exec (action >>= next) s = exec action s >>= resume next := by
  unfold exec
  rw [ExceptT.run_bind, StateT.run_bind]
  congr 1
  funext out
  obtain ⟨result, t⟩ := out
  cases result <;> rfl

@[simp] theorem resume_ok (a : α) : resume next (.ok a, s) = exec (next a) s := rfl

@[simp] theorem resume_error (e : ε) : resume next (.error e, s) = .ok (.error e, s) := rfl

@[simp] theorem exec_pure (a : α) : exec (pure a : Procedure ε σ α) s = .ok (.ok a, s) := rfl

@[simp] theorem exec_throw (e : ε) : exec (throw e : Procedure ε σ α) s = .ok (.error e, s) := rfl

@[simp] theorem exec_get : exec (get : Procedure ε σ σ) s = .ok (.ok s, s) := rfl

@[simp] theorem exec_set (t : σ) : exec (set t : Procedure ε σ PUnit) s = .ok (.ok ⟨⟩, t) := rfl

@[simp] theorem exec_modify (f : σ → σ) :
    exec (modify f : Procedure ε σ PUnit) s = .ok (.ok ⟨⟩, f s) := rfl

@[simp] theorem exec_lift (check : Checked α) :
    exec (liftM check : Procedure ε σ α) s = check >>= fun a => .ok (.ok a, s) := by
  cases check <;> rfl

theorem exec_lift_of_ok {check : Checked α} {a : α} (h : check = .ok a) :
    exec (liftM check : Procedure ε σ α) s = .ok (.ok a, s) := by
  subst h
  rfl

@[simp] theorem exec_adopt (result : Except ε α) :
    exec (adopt result) s = .ok (result, s) := by
  cases result <;> rfl

theorem exec_bind_of_ok {a : α} (h : exec action s = .ok (.ok a, t)) :
    exec (action >>= next) s = exec (next a) t := by
  rw [exec_bind, h]
  rfl

/-- An action in front of another one is an operation in front of another one. -/
theorem exec_bind_of_seen {view : τ → σ} {first : Action σ Unit} {second : Unit → Action σ Unit}
    {o : Outcome τ} {g : τ → Outcome τ} (h : exec first s = seen view o)
    (hnext : ∀ t, o = .done t → exec (second ()) (view t) = seen view (g t)) :
    exec (first >>= second) s = seen view (o.andThen g) := by
  rw [exec_bind, h]
  cases o with
  | done t => exact hnext t rfl
  | failed e t => rfl

end Action

end SpendCheck.Guarded
