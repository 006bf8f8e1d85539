import SpendCheck.Policy.ScriptError

namespace SpendCheck

/-- What a computation leaves: a state, and if it stopped early, also why. The
    state stays visible after a failure. -/
inductive Outcome (σ : Type) where
  | done (state : σ)
  | failed (error : ScriptError) (state : σ)
deriving DecidableEq, Repr

namespace Outcome

variable {σ τ : Type}

/-- The state that is left. -/
def state : Outcome σ → σ
  | done s => s
  | failed _ s => s

/-- Whether the computation succeeded, or why not. -/
def result : Outcome σ → Except ScriptError Unit
  | done _ => .ok ()
  | failed e _ => .error e

/-- Goes on with the state of a computation that succeeded. -/
@[inline] def andThen (o : Outcome σ) (next : σ → Outcome σ) : Outcome σ :=
  match o with
  | done s => next s
  | failed e s => failed e s

/-- Changes the state that is left. -/
def map (f : σ → τ) : Outcome σ → Outcome τ
  | done s => done (f s)
  | failed e s => failed e (f s)

@[simp] theorem done_andThen (s : σ) (next : σ → Outcome σ) :
    (done s).andThen next = next s := rfl

@[simp] theorem failed_andThen (e : ScriptError) (s : σ) (next : σ → Outcome σ) :
    (failed e s).andThen next = failed e s := rfl

theorem andThen_assoc (o : Outcome σ) (f g : σ → Outcome σ) :
    (o.andThen f).andThen g = o.andThen fun s => (f s).andThen g := by
  cases o <;> rfl

/-- A sequence succeeds exactly if both of its parts do, one after the other. -/
theorem andThen_eq_done_iff {o : Outcome σ} {next : σ → Outcome σ} {t : σ} :
    o.andThen next = done t ↔ ∃ s, o = done s ∧ next s = done t := by
  cases o <;> simp

theorem andThen_result_of_error {o : Outcome σ} {next : σ → Outcome σ} {e : ScriptError}
    (h : o.result = .error e) : (o.andThen next).result = .error e := by
  cases o with
  | done s => cases h
  | failed e' s => exact h

theorem result_eq_ok_iff {o : Outcome σ} : o.result = .ok () ↔ o = done o.state := by
  cases o <;> simp [result, state]

end Outcome

end SpendCheck
