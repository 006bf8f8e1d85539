import Mathlib.Data.List.Induction
import SpendCheck.Proofs.Machine.Boundary
import SpendCheck.Proofs.Machine.Step

namespace SpendCheck

theorem Operation.ofOpcode_codeSeparator :
    Operation.ofOpcode Opcode.codeSeparator = .codeSeparator := by
  decide

namespace Machine

variable {context : Context} {m m' : Machine} {instruction : Instruction}

theorem separator_of_apply {kind : Branching} (h : kind.apply m = .done m') :
    m'.separator = m.separator := by
  obtain ⟨stack, conditions, hstate⟩ := branching_state m kind
  rw [h, Outcome.done_state] at hstate
  rw [hstate]

/-- Only a separator moves the place where the signed part begins. -/
theorem separator_of_execute {opcode : Opcode}
    (hother : ∀ kind, Operation.ofOpcode opcode ≠ .branching kind)
    (h : m.execute context (Operation.ofOpcode opcode) = .done m') :
    m'.separator = if opcode = Opcode.codeSeparator then m.position else m.separator := by
  by_cases hseparator : opcode = Opcode.codeSeparator
  · rw [hseparator, Operation.ofOpcode_codeSeparator] at h
    cases h
    rw [if_pos hseparator]
  · have hne : Operation.ofOpcode opcode ≠ .codeSeparator :=
      fun hkind => hseparator (Operation.eq_codeSeparator_of_ofOpcode hkind)
    obtain ⟨stack, altStack, opCount, calls, -, hstate⟩ := execute_state_of_ne context m hother hne
    rw [h, Outcome.done_state] at hstate
    rw [hstate, if_neg hseparator]

/-- A separator that is not executed moves nothing. -/
theorem separator_of_performs (h : m.Performs context instruction m') :
    m'.separator = if instruction = .op Opcode.codeSeparator ∧ m.executes = true then m.position
      else m.separator := by
  cases h with
  | push => simp
  | skipPush => simp
  | @branch opcode _ _ _ hkind happly =>
    have hne : opcode ≠ Opcode.codeSeparator := by
      rintro rfl
      rw [Operation.ofOpcode_codeSeparator] at hkind
      cases hkind
    have hunmarked : ¬(Instruction.op opcode = .op Opcode.codeSeparator ∧ m.executes = true) := by
      simp [hne]
    rw [separator_of_apply happly]
    exact (if_neg hunmarked).symm
  | execute _ hother hexecutes hexecute =>
    rw [separator_of_execute hother hexecute]
    simp [hexecutes]
  | skip _ _ _ hskips => simp [hskips]

/-- Only a separator that is executed marks a place, the one where it ends. -/
theorem separator_of_step (h : m.step context instruction = .done m') :
    m'.separator = if instruction = .op Opcode.codeSeparator ∧ m.executes = true then m'.position
      else m.separator := by
  obtain ⟨hperforms, -⟩ := performs_of_step h
  have hmoved := step_position context m instruction
  rw [h, Outcome.done_state] at hmoved
  rw [hmoved, separator_of_performs hperforms]
  rfl

end Machine

namespace Evaluator

variable {evaluator : Evaluator} {stack : Stack} {script : Script} {before after : List Instruction}
  {m m' : Machine} {instruction : Instruction}

theorem Passes.unique {after' : List Instruction} (h : evaluator.Passes stack script before after m)
    (h' : evaluator.Passes stack script before after' m') : m = m' := by
  have hsame := h.steps_eq.symm.trans h'.steps_eq
  cases hsame
  rfl

/-- Evaluating a script passes every place before one that it passes. -/
theorem Passes.split {between : List Instruction}
    (h : evaluator.Passes stack script (before ++ between) after m) :
    ∃ earlier, evaluator.Passes stack script before (between ++ after) earlier ∧
      earlier.steps (evaluator.context script) between = .done m := by
  obtain ⟨hle, hinstructions, hsteps⟩ := h
  rw [Machine.steps_append] at hsteps
  obtain ⟨earlier, hbefore, hbetween⟩ := Outcome.andThen_eq_done_iff.1 hsteps
  exact ⟨earlier, ⟨hle, by rw [hinstructions, List.append_assoc], hbefore⟩, hbetween⟩

/-- The boundary behind an instruction is reached by one step from the boundary before it. -/
theorem Passes.split_last (h : evaluator.Passes stack script (before ++ [instruction]) after m) :
    ∃ earlier, evaluator.Passes stack script before (instruction :: after) earlier ∧
      earlier.step (evaluator.context script) instruction = .done m := by
  obtain ⟨earlier, hearlier, hsteps⟩ := h.split
  obtain ⟨stepped, hstep, hrest⟩ := Outcome.andThen_eq_done_iff.1 hsteps
  cases hrest
  exact ⟨earlier, hearlier, hstep⟩

/-- Evaluating a script passes the place behind the instructions `before`, and
executes what comes there: no branch is open that is not taken. -/
def Executes (evaluator : Evaluator) (stack : Stack) (script : Script)
    (before : List Instruction) : Prop :=
  ∃ after m, evaluator.Passes stack script before after m ∧ m.executes = true

/-- Whether an instruction is executed can be read off the conditions at the boundary before it. -/
theorem Passes.executes_iff (h : evaluator.Passes stack script before after m) :
    evaluator.Executes stack script before ↔ m.executes = true := by
  constructor
  · rintro ⟨after', m', h', hexecutes⟩
    rw [h.unique h']
    exact hexecutes
  · intro hexecutes
    exact ⟨after, m, h, hexecutes⟩

/-- The part of a script that signatures sign, at the place behind the instructions
`before`, begins at an offset: where the last separator among them ends that was
executed, or at 0 if none was. A separator in a branch that is not taken does not
count. -/
inductive SignsFrom (evaluator : Evaluator) (stack : Stack) (script : Script)
    (before : List Instruction) : Nat → Prop
  | start (hnone : ∀ first rest, before = first ++ .op Opcode.codeSeparator :: rest →
      ¬evaluator.Executes stack script first) : SignsFrom evaluator stack script before 0
  | separator {first rest : List Instruction}
      (hbefore : before = first ++ .op Opcode.codeSeparator :: rest)
      (hexecutes : evaluator.Executes stack script first)
      (hlast : ∀ between later, rest = between ++ .op Opcode.codeSeparator :: later →
        ¬evaluator.Executes stack script (first ++ .op Opcode.codeSeparator :: between)) :
      SignsFrom evaluator stack script before
        ((first ++ [Instruction.op Opcode.codeSeparator]).flatMap Instruction.bytes).length

/-- An item of a list with a last item is that one, or it stands in front of it. -/
theorem eq_append_cons_of_concat {α : Type} {items first rest : List α} {a last : α}
    (h : items ++ [last] = first ++ a :: rest) :
    (items = first ∧ last = a) ∨ ∃ others, rest = others ++ [last] ∧ items = first ++ a :: others := by
  obtain rfl | ⟨others, b, rfl⟩ := List.eq_nil_or_concat rest
  · obtain ⟨hitems, hlast⟩ := List.append_inj' h rfl
    exact .inl ⟨hitems, List.singleton_inj.1 hlast⟩
  · rw [List.concat_eq_append, ← List.cons_append, ← List.append_assoc] at h
    obtain ⟨hitems, hlast⟩ := List.append_inj' h rfl
    obtain rfl := List.singleton_inj.1 hlast
    exact .inr ⟨others, List.concat_eq_append, hitems⟩

/-- An instruction that is not an executed separator does not move the beginning. -/
theorem SignsFrom.concat {start : Nat} (h : evaluator.SignsFrom stack script before start)
    (hother : instruction = .op Opcode.codeSeparator → ¬evaluator.Executes stack script before) :
    evaluator.SignsFrom stack script (before ++ [instruction]) start := by
  cases h with
  | start hnone =>
    refine .start fun first rest hsplit => ?_
    obtain ⟨rfl, hseparator⟩ | ⟨others, -, hbefore⟩ := eq_append_cons_of_concat hsplit
    · exact hother hseparator
    · exact hnone first others hbefore
  | @separator first rest hbefore hexecutes hlast =>
    subst hbefore
    have hlonger : first ++ .op Opcode.codeSeparator :: rest ++ [instruction] =
        first ++ .op Opcode.codeSeparator :: (rest ++ [instruction]) :=
      List.append_assoc _ _ _
    refine .separator hlonger hexecutes fun between later hsplit => ?_
    obtain ⟨rfl, hseparator⟩ | ⟨others, -, hrest⟩ := eq_append_cons_of_concat hsplit
    · exact hother hseparator
    · exact hlast between others hrest

/-- At every place the machine knows where the signed part begins. -/
theorem Passes.signsFrom (h : evaluator.Passes stack script before after m) :
    evaluator.SignsFrom stack script before m.separator := by
  induction before using List.reverseRecOn generalizing after m with
  | nil =>
    have hstart := h.steps_eq
    cases hstart
    exact .start fun first rest hsplit => absurd hsplit (by simp)
  | append_singleton before instruction ih =>
    obtain ⟨earlier, hearlier, hstep⟩ := h.split_last
    have hseparator := Machine.separator_of_step hstep
    by_cases hmarks : instruction = .op Opcode.codeSeparator ∧ earlier.executes = true
    · obtain ⟨rfl, hexecutes⟩ := hmarks
      rw [if_pos ⟨rfl, hexecutes⟩, h.position_eq] at hseparator
      rw [hseparator]
      have hlast : before ++ [.op Opcode.codeSeparator] = before ++ .op Opcode.codeSeparator :: [] := rfl
      exact .separator hlast (hearlier.executes_iff.2 hexecutes) fun between later hsplit =>
        absurd hsplit (by simp)
    · rw [if_neg hmarks] at hseparator
      rw [hseparator]
      exact (ih hearlier).concat fun hkind hexecutes =>
        hmarks ⟨hkind, hearlier.executes_iff.1 hexecutes⟩

end Evaluator

end SpendCheck
