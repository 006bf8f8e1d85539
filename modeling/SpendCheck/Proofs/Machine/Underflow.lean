import SpendCheck.Proofs.Machine.Arithmetic
import SpendCheck.Proofs.Machine.Reporting

namespace SpendCheck

/-- The number of elements that a rearrangement looks at or takes away. The index of the
selections is one of them, and something to select another. -/
def StackOperation.arity : StackOperation → Nat
  | .depth => 0
  | .ifDup | .drop | .dup | .size => 1
  | .drop2 | .dup2 | .nip | .over | .pick | .roll | .swap | .tuck => 2
  | .dup3 | .rot => 3
  | .over2 | .swap2 => 4
  | .rot2 => 6

/-- The number of elements of the main stack that an operation looks at or takes away, if
it is the same for all stacks. Conditionals have a reason of their own to fail. -/
def Operation.arity? : Operation → Option Nat
  | .number _ | .nop | .fail | .fromAltStack | .codeSeparator | .disabled | .undefined => some 0
  | .verify | .toAltStack | .unary _ | .hash _ => some 1
  | .equal | .equalVerify | .binary _ | .numEqualVerify | .checkSig | .checkSigVerify => some 2
  | .within => some 3
  | .stack kind => some kind.arity
  | .branching _ | .checkMultiSig | .checkMultiSigVerify => none

/-- The computation does not fail for want of elements. -/
abbrev Outcome.FindsElements {σ : Type} (o : Outcome σ) : Prop :=
  o.FailsWithin (· ≠ .invalidStackOperation)

open Outcome

theorem Outcome.findsElements_failed {σ : Type} {e : ScriptError} (h : e ≠ .invalidStackOperation)
    (s : σ) : (failed e s).FindsElements :=
  failsWithin_failed (P := (· ≠ .invalidStackOperation)) h s

namespace Stack

variable {stack : Stack}

theorem exists_two_of_le {count : Nat} (h : count + 2 ≤ stack.length) :
    ∃ b a rest, stack = b :: a :: rest ∧ count ≤ rest.length := by
  obtain ⟨b, below, rfl, hbelow⟩ := exists_cons_of_le h
  obtain ⟨a, rest, rfl, hrest⟩ := exists_cons_of_le hbelow
  exact ⟨b, a, rest, rfl, hrest⟩

theorem findsElements_push (element : Bytes) (stack : Stack) : (push element stack).FindsElements := by
  unfold push
  split
  · exact findsElements_failed (by decide) stack
  · exact failsWithin_done _

theorem findsElements_verify {error : ScriptError} (herror : error ≠ .invalidStackOperation)
    (h : 1 ≤ stack.length) : (verify error stack).FindsElements := by
  obtain ⟨element, rest, rfl, -⟩ := exists_cons_of_le h
  rw [verify]
  split
  · exact failsWithin_done rest
  · exact findsElements_failed herror rest

theorem findsElements_equal (h : 2 ≤ stack.length) : stack.equal.FindsElements := by
  obtain ⟨b, a, rest, rfl, -⟩ := exists_two_of_le h
  exact findsElements_push _ rest

theorem equal_of_short (h : stack.length < 2) :
    stack.equal = .failed .invalidStackOperation stack := by
  cases stack with
  | nil => rfl
  | cons top rest =>
    cases rest with
    | nil => rfl
    | cons next rest => exact absurd h (Nat.not_lt.2 (Nat.le_add_left 2 rest.length))

/-- A comparison leaves something to verify. -/
theorem findsElements_equal_andThen_verify {error : ScriptError}
    (herror : error ≠ .invalidStackOperation) (h : 2 ≤ stack.length) :
    (stack.equal.andThen (verify error)).FindsElements := by
  obtain ⟨b, a, rest, rfl, -⟩ := exists_two_of_le h
  have hshort : (Number.ofBool (b == a)).length ≤ maxElementSize := by
    cases b == a <;> decide
  rw [equal, push_of_le hshort, done_andThen]
  exact findsElements_verify herror (Nat.le_add_left 1 _)

/-- The top element is an index into the elements below it, and it is negative or too
large. -/
def LacksSelected (stack : Stack) : Prop :=
  ∃ index below depth, stack = index :: below ∧ Number.decode Number.maxSize index = .ok depth ∧
    (depth < 0 ∨ (below.length : Int) ≤ depth)

theorem lacksSelected_cons_iff {index : Bytes} {below : Stack} :
    LacksSelected (index :: below) ↔ ∃ depth, Number.decode Number.maxSize index = .ok depth ∧
      (depth < 0 ∨ (below.length : Int) ≤ depth) := by
  simp [LacksSelected]

/-- A selection fails for want of elements if its index misses them, as what it goes on with
does not. -/
theorem select_result_eq_iff {next : Stack → Nat → Bytes → Outcome Stack} {index : Bytes} {below : Stack}
    (hnext : ∀ below depth element, (next below depth element).FindsElements) :
    (select next (index :: below)).result = .error .invalidStackOperation ↔
      LacksSelected (index :: below) := by
  rw [lacksSelected_cons_iff]
  obtain hwide | hnarrow := Nat.lt_or_ge Number.maxSize index.length
  · simp [select, Number.decode_of_lt hwide, Outcome.result]
  · simp only [select, Number.decode_of_le hnarrow, Except.ok.injEq, exists_eq_left']
    by_cases hnegative : Number.value index < 0
    · simp [hnegative, Outcome.result]
    · rw [if_neg hnegative]
      cases helement : below[(Number.value index).toNat]? with
      | none =>
        have hbeyond := List.getElem?_eq_none_iff.1 helement
        simp only [Outcome.result, true_iff]
        omega
      | some element =>
        obtain ⟨hinside, -⟩ := List.getElem?_eq_some_iff.1 helement
        constructor
        · intro hfails
          exact absurd rfl (hnext _ _ _ _ hfails)
        · omega

end Stack

open Stack

theorem HashOperation.findsElements_apply (kind : HashOperation) {stack : Stack}
    (h : 1 ≤ stack.length) : (kind.apply stack).FindsElements := by
  obtain ⟨a, rest, rfl, -⟩ := exists_cons_of_le h
  exact findsElements_push _ rest

namespace StackOperation

variable {kind : StackOperation} {stack : Stack}

theorem apply_of_short (h : stack.length < kind.arity) :
    kind.apply stack = .failed .invalidStackOperation stack := by
  fun_cases StackOperation.apply kind stack with
  | case20 => rfl
  | _ => simp only [arity, List.length_cons] at h; omega

/-- With as many elements as its arity says a rearrangement does not fail for want of them. The
two selections look further down. -/
theorem findsElements_apply (hpick : kind ≠ .pick) (hroll : kind ≠ .roll)
    (h : kind.arity ≤ stack.length) : (kind.apply stack).FindsElements := by
  have hcopies : ∀ (a b : Bytes) (stack : Stack), ((push a stack).andThen (push b)).FindsElements :=
    fun a b stack => (findsElements_push a stack).andThen (findsElements_push b)
  cases kind with
  | depth => exact findsElements_push _ stack
  | ifDup =>
    obtain ⟨a, rest, rfl, -⟩ := exists_cons_of_le h
    rw [apply]
    split
    · exact findsElements_push a _
    · exact failsWithin_done _
  | drop =>
    obtain ⟨a, rest, rfl, -⟩ := exists_cons_of_le h
    exact failsWithin_done rest
  | dup | size =>
    obtain ⟨a, rest, rfl, -⟩ := exists_cons_of_le h
    exact findsElements_push _ _
  | drop2 | nip | swap | tuck =>
    obtain ⟨b, a, rest, rfl, -⟩ := exists_two_of_le h
    exact failsWithin_done _
  | «over» =>
    obtain ⟨b, a, rest, rfl, -⟩ := exists_two_of_le h
    exact findsElements_push a _
  | dup2 =>
    obtain ⟨b, a, rest, rfl, -⟩ := exists_two_of_le h
    exact hcopies a b _
  | rot =>
    obtain ⟨c, b, below, rfl, hbelow⟩ := exists_two_of_le h
    obtain ⟨a, rest, rfl, -⟩ := exists_cons_of_le hbelow
    exact failsWithin_done _
  | dup3 =>
    obtain ⟨c, b, below, rfl, hbelow⟩ := exists_two_of_le h
    obtain ⟨a, rest, rfl, -⟩ := exists_cons_of_le hbelow
    exact (hcopies a b _).andThen (findsElements_push c)
  | swap2 =>
    obtain ⟨d, c, below, rfl, hbelow⟩ := exists_two_of_le h
    obtain ⟨b, a, rest, rfl, -⟩ := exists_two_of_le hbelow
    exact failsWithin_done _
  | over2 =>
    obtain ⟨d, c, below, rfl, hbelow⟩ := exists_two_of_le h
    obtain ⟨b, a, rest, rfl, -⟩ := exists_two_of_le hbelow
    exact hcopies a b _
  | rot2 =>
    obtain ⟨f, e, below, rfl, hbelow⟩ := exists_two_of_le h
    obtain ⟨d, c, deeper, rfl, hdeeper⟩ := exists_two_of_le hbelow
    obtain ⟨b, a, rest, rfl, -⟩ := exists_two_of_le hdeeper
    exact failsWithin_done _
  | pick => exact absurd rfl hpick
  | roll => exact absurd rfl hroll

/-- A selection fails for want of elements exactly if its index misses them. -/
theorem apply_result_eq_iff (hkind : kind = .pick ∨ kind = .roll) (h : 2 ≤ stack.length) :
    (kind.apply stack).result = .error .invalidStackOperation ↔ stack.LacksSelected := by
  obtain ⟨index, a, rest, rfl, -⟩ := exists_two_of_le h
  obtain rfl | rfl := hkind
  · rw [apply]
    exact select_result_eq_iff fun _ _ _ => findsElements_push _ _
  · rw [apply]
    exact select_result_eq_iff fun _ _ _ => findsElements_push _ _

end StackOperation

namespace Arithmetic

variable {stack : Stack}

/-- With enough operands arithmetic fails only for their width, and else leaves something
to verify. -/
theorem apply_of_le (op : Arithmetic) (h : op.arity ≤ stack.length) :
    op.apply stack = .failed .unknown stack ∨
      ∃ left, 1 ≤ left.length ∧ op.apply stack = .done left := by
  by_cases hwide : ∃ operand ∈ stack.take op.arity, Number.maxSize < operand.length
  · exact .inl (op.apply_of_wide h hwide)
  · obtain ⟨result, -, -, happly⟩ := op.apply_of_narrow h fun operand hmem =>
      Nat.not_lt.1 fun hlong => hwide ⟨operand, hmem, hlong⟩
    exact .inr ⟨_, Nat.le_add_left 1 _, happly⟩

/-- With enough operands arithmetic does not fail for want of elements. -/
theorem findsElements_apply (op : Arithmetic) (h : op.arity ≤ stack.length) :
    (op.apply stack).FindsElements := by
  obtain happly | ⟨left, -, happly⟩ := op.apply_of_le h
  · rw [happly]
    exact findsElements_failed (by decide) stack
  · rw [happly]
    exact failsWithin_done left

/-- Nor does the form that also takes the answer away, as there is an answer. -/
theorem findsElements_apply_andThen_verify (op : Arithmetic) {error : ScriptError}
    (herror : error ≠ .invalidStackOperation) (h : op.arity ≤ stack.length) :
    ((op.apply stack).andThen (verify error)).FindsElements := by
  obtain happly | ⟨left, hleft, happly⟩ := op.apply_of_le h
  · rw [happly]
    exact findsElements_failed (by decide) stack
  · rw [happly]
    exact findsElements_verify herror hleft

end Arithmetic

theorem Context.isEncoding_of_ask {context : Context} {code : Script} {sig pubkey : Bytes}
    {e : ScriptError} (h : context.ask code sig pubkey = .error e) : e.isEncoding = true :=
  (error_of_ask h).elim isEncoding_of_checkSignatureEncoding isEncoding_of_checkKeyEncoding

namespace Machine

variable {context : Context} {m left : Machine} {operation : Operation} {count : Nat} {e : ScriptError}

theorem findsElements_onStack {apply : Stack → Outcome Stack} (h : (apply m.stack).FindsElements) :
    (m.onStack apply).FindsElements :=
  h.map _

/-- With a signature and a key there, a check fails only for their encodings, and else
leaves something to verify. -/
theorem checkSig_of_le (context : Context) (h : 2 ≤ m.stack.length) :
    (∃ e, e.isEncoding = true ∧ m.checkSig context = .failed e m) ∨
      ∃ m', 1 ≤ m'.stack.length ∧ m.checkSig context = .done m' := by
  obtain ⟨pubkey, sig, rest, hstack, -⟩ := exists_two_of_le h
  rw [checkSig, hstack]
  dsimp only
  split
  · next e hask => exact .inl ⟨e, Context.isEncoding_of_ask hask, rfl⟩
  · refine .inr ⟨_, ?_, rfl⟩
    exact Nat.le_add_left 1 rest.length

theorem ne_invalidStackOperation_of_isEncoding (h : e.isEncoding = true) :
    e ≠ .invalidStackOperation := by
  rintro rfl
  cases h

/-- A check of one signature looks for both of its arguments before it does anything. -/
theorem checkSig_of_short (h : m.stack.length < 2) :
    m.checkSig context = .failed .invalidStackOperation m := by
  rw [checkSig]
  cases hstack : m.stack with
  | nil => rfl
  | cons top rest =>
    cases rest with
    | nil => rfl
    | cons next rest =>
      rw [hstack] at h
      exact absurd h (Nat.not_lt.2 (Nat.le_add_left 2 rest.length))

/-- Two elements are enough for a signature check, whatever they are. -/
theorem findsElements_checkSig (h : 2 ≤ m.stack.length) : (m.checkSig context).FindsElements := by
  obtain ⟨e, hencoding, hcheck⟩ | ⟨m', -, hcheck⟩ := checkSig_of_le context h
  · rw [hcheck]
    exact findsElements_failed (ne_invalidStackOperation_of_isEncoding hencoding) m
  · rw [hcheck]
    exact failsWithin_done m'

theorem findsElements_checkSigVerify (h : 2 ≤ m.stack.length) :
    (m.execute context .checkSigVerify).FindsElements := by
  rw [execute]
  obtain ⟨e, hencoding, hcheck⟩ | ⟨m', hleft, hcheck⟩ := checkSig_of_le context h
  · rw [hcheck]
    exact findsElements_failed (ne_invalidStackOperation_of_isEncoding hencoding) m
  · rw [hcheck]
    exact findsElements_onStack (findsElements_verify (by decide) hleft)

/-- Without enough elements an operation changes nothing. -/
theorem execute_of_short (harity : operation.arity? = some count) (h : m.stack.length < count) :
    m.execute context operation = .failed .invalidStackOperation m := by
  cases operation with
  | number | nop | fail | fromAltStack | codeSeparator | disabled | undefined =>
    cases harity
    exact absurd h (Nat.not_lt_zero _)
  | verify | hash kind =>
    cases harity
    have hempty := List.length_eq_zero_iff.1 (Nat.lt_one_iff.1 h)
    exact onStack_of_failed (by rw [hempty]; rfl)
  | toAltStack =>
    cases harity
    have hempty := List.length_eq_zero_iff.1 (Nat.lt_one_iff.1 h)
    simp only [execute, toAltStack, hempty]
  | unary kind =>
    cases harity
    exact (m.requiresOperands_arithmetic context (.unary kind)).1 h
  | binary kind =>
    cases harity
    exact (m.requiresOperands_arithmetic context (.binary kind)).1 h
  | within =>
    cases harity
    exact (m.requiresOperands_arithmetic context .within).1 h
  | numEqualVerify =>
    cases harity
    exact (m.requiresOperands_numEqualVerify context).1 h
  | stack kind =>
    cases harity
    exact onStack_of_failed (kind.apply_of_short h)
  | equal =>
    cases harity
    exact onStack_of_failed (equal_of_short h)
  | equalVerify =>
    cases harity
    rw [execute]
    refine onStack_of_failed ?_
    rw [equal_of_short h, failed_andThen]
  | checkSig =>
    cases harity
    exact checkSig_of_short h
  | checkSigVerify =>
    cases harity
    rw [execute, checkSig_of_short h, failed_andThen]
  | branching | checkMultiSig | checkMultiSigVerify => cases harity

theorem result_of_findsElements {o : Outcome Machine} (h : o.FindsElements) :
    o.result ≠ .error .invalidStackOperation :=
  fun hfails => h _ hfails rfl

/-- Selections apart, an operation with enough elements does not fail for want of them. -/
theorem findsElements_execute (harity : operation.arity? = some count) (h : count ≤ m.stack.length)
    (hpick : operation ≠ .stack .pick) (hroll : operation ≠ .stack .roll) :
    (m.execute context operation).FindsElements := by
  cases operation with
  | nop | codeSeparator => exact failsWithin_done _
  | fail | disabled | undefined => exact findsElements_failed (by decide) m
  | number value => exact findsElements_onStack (findsElements_push _ _)
  | fromAltStack =>
    simp only [execute, fromAltStack]
    split
    · exact findsElements_failed (by decide) m
    · exact findsElements_onStack (findsElements_push _ _)
  | verify =>
    cases harity
    exact findsElements_onStack (findsElements_verify (by decide) h)
  | toAltStack =>
    cases harity
    obtain ⟨element, rest, hstack, -⟩ := exists_cons_of_le h
    simp only [execute, toAltStack, hstack]
    exact failsWithin_done _
  | stack kind =>
    cases harity
    have hkind := kind.findsElements_apply (fun heq => hpick (congrArg _ heq))
      (fun heq => hroll (congrArg _ heq)) h
    exact findsElements_onStack hkind
  | equal =>
    cases harity
    exact findsElements_onStack (findsElements_equal h)
  | equalVerify =>
    cases harity
    rw [execute]
    refine findsElements_onStack ?_
    exact findsElements_equal_andThen_verify (by decide) h
  | unary kind =>
    cases harity
    exact findsElements_onStack ((Arithmetic.unary kind).findsElements_apply h)
  | binary kind =>
    cases harity
    exact findsElements_onStack ((Arithmetic.binary kind).findsElements_apply h)
  | within =>
    cases harity
    exact findsElements_onStack (Arithmetic.within.findsElements_apply h)
  | numEqualVerify =>
    cases harity
    rw [execute_numEqualVerify]
    refine findsElements_onStack ?_
    exact (Arithmetic.binary .numEqual).findsElements_apply_andThen_verify (by decide) h
  | hash kind =>
    cases harity
    exact findsElements_onStack (kind.findsElements_apply h)
  | checkSig =>
    cases harity
    exact findsElements_checkSig h
  | checkSigVerify =>
    cases harity
    exact findsElements_checkSigVerify h
  | branching | checkMultiSig | checkMultiSigVerify => cases harity

/-- With enough elements an operation fails for want of them only if it is a selection
whose index misses them. -/
theorem execute_result_eq_iff (harity : operation.arity? = some count) (h : count ≤ m.stack.length) :
    (m.execute context operation).result = .error .invalidStackOperation ↔
      (operation = .stack .pick ∨ operation = .stack .roll) ∧ m.stack.LacksSelected := by
  by_cases hselects : operation = .stack .pick ∨ operation = .stack .roll
  · rw [and_iff_right hselects]
    obtain rfl | rfl := hselects
    · cases harity
      rw [execute, onStack_result, StackOperation.apply_result_eq_iff (.inl rfl) h]
    · cases harity
      rw [execute, onStack_result, StackOperation.apply_result_eq_iff (.inr rfl) h]
  · obtain ⟨hpick, hroll⟩ := not_or.1 hselects
    have hfinds : (m.execute context operation).FindsElements :=
      findsElements_execute harity h hpick hroll
    exact iff_of_false (result_of_findsElements hfinds) fun hboth => hselects hboth.1

/-! A multiple signature check takes its arguments away only when it has an answer. -/

/-- A failure leaves both stacks as they were, but for the one about the element that
serves no purpose, which is then on top of what was below the arguments. -/
def KeepsStacks (m : Machine) (o : Outcome Machine) : Prop :=
  ∀ e left, o = .failed e left →
    left.altStack = m.altStack ∧ (left.stack = m.stack ↔ e ≠ .sigNullDummy)

theorem keepsStacks_failed (he : e ≠ .sigNullDummy) (hstack : left.stack = m.stack)
    (halt : left.altStack = m.altStack) : m.KeepsStacks (.failed e left) := by
  rintro _ _ ⟨⟩
  exact ⟨halt, iff_of_true hstack he⟩

/-- The arguments are taken away together with the last one, so only a failure about that one
leaves fewer elements. -/
theorem keepsStacks_settleMultiSig {args : MultiSig}
    (h : (args.dummy :: args.base).length < m.stack.length) :
    m.KeepsStacks (m.settleMultiSig context args) := by
  simp only [settleMultiSig]
  split
  · next e hscan =>
    obtain ⟨sig, pubkey, hask⟩ := Context.exists_ask_of_scan hscan
    refine keepsStacks_failed ?_ rfl rfl
    rintro rfl
    cases Context.isEncoding_of_ask hask
  · split
    · rintro e left ⟨⟩
      refine ⟨rfl, iff_of_false (fun hsame => ?_) (not_not_intro rfl)⟩
      exact Nat.ne_of_lt h (congrArg List.length hsame)
    · rintro e left ⟨⟩

theorem ne_sigNullDummy_of_isPlain (h : e.isPlain = true) : e ≠ .sigNullDummy := by
  rintro rfl
  cases h

/-- Counting the keys and finding the arguments leave both stacks alone. -/
theorem keepsStacks_checkMultiSig : m.KeepsStacks (m.checkMultiSig context) := by
  unfold checkMultiSig
  split
  · exact keepsStacks_failed (by decide) rfl rfl
  · next element below hstack =>
    split
    · next hcount =>
      have hplain := Number.isPlain_of_decodeCount rfl hcount
      exact keepsStacks_failed (ne_sigNullDummy_of_isPlain hplain) rfl rfl
    · next keyCount hcount =>
      simp only [countOperations]
      split
      · exact keepsStacks_failed (by decide) rfl rfl
      · rw [done_andThen]
        split
        · next hargs =>
          have hplain := MultiSig.isPlain_of_ofStack? hargs
          exact keepsStacks_failed (ne_sigNullDummy_of_isPlain hplain) rfl rfl
        · next args hargs =>
          have hlength := (MultiSig.suffix_of_ofStack? hargs).length_le
          have hkeeps := @keepsStacks_settleMultiSig context { m with opCount := m.opCount + keyCount }
            args (by rw [hstack]; exact Nat.lt_succ_of_le hlength)
          exact hkeeps

theorem execute_fromAltStack_of_nil (h : m.altStack = []) :
    m.execute context .fromAltStack = .failed .invalidAltstackOperation m := by
  simp only [execute, fromAltStack, h]

/-- What is moved back may only be too long to be pushed. -/
theorem execute_fromAltStack_result_eq_iff :
    (m.execute context .fromAltStack).result = .error .invalidAltstackOperation ↔ m.altStack = [] := by
  constructor
  · intro hfails
    cases halt : m.altStack with
    | nil => rfl
    | cons element rest =>
      simp only [execute, fromAltStack, halt, onStack_result] at hfails
      obtain hlong | hshort := Nat.lt_or_ge maxElementSize element.length
      · rw [push_of_lt hlong] at hfails
        cases hfails
      · rw [push_of_le hshort] at hfails
        cases hfails
  · intro halt
    rw [execute_fromAltStack_of_nil halt]
    rfl

/-- An operation looks whether its elements are there before it changes anything. With
fewer than it needs it fails and leaves the machine as it is, both stacks and the
questions to the checker included. With as many it does not fail for want of elements,
unless it selects an element by an index that is negative or too large. The number of
elements that a multiple signature check needs depends on them: where it fails, both
stacks are as they were, but for the failure that is about its last argument. To move an
element back takes one on the other stack, and is the only operation to fail for want of
it. -/
theorem underflow_changes_nothing (context : Context) (m : Machine) :
    (∀ operation count, operation.arity? = some count →
      (m.stack.length < count →
        m.execute context operation = .failed .invalidStackOperation m) ∧
      (count ≤ m.stack.length →
        ((m.execute context operation).result = .error .invalidStackOperation ↔
          (operation = .stack .pick ∨ operation = .stack .roll) ∧ m.stack.LacksSelected))) ∧
    m.KeepsStacks (m.execute context .checkMultiSig) ∧
    ((m.execute context .fromAltStack).result = .error .invalidAltstackOperation ↔ m.altStack = []) ∧
    (m.altStack = [] → m.execute context .fromAltStack = .failed .invalidAltstackOperation m) :=
  ⟨fun _ _ harity => ⟨execute_of_short harity, execute_result_eq_iff harity⟩,
    keepsStacks_checkMultiSig, execute_fromAltStack_result_eq_iff, execute_fromAltStack_of_nil⟩

/-- Five elements are too few to move the fifth and sixth to the top, and nothing is moved.
With an index beyond the one element below it a selection fails, and so does a check of
more signatures than keys, with its arguments in place. -/
theorem five_elements_too_few :
    Machine.execute ⟨.standard, .refuseAll, []⟩
        { stack := [[5], [4], [3], [2], [1]], altStack := [[9]] } (.stack .rot2) =
      .failed .invalidStackOperation { stack := [[5], [4], [3], [2], [1]], altStack := [[9]] } ∧
    (Machine.execute ⟨.standard, .refuseAll, []⟩ { stack := [[1], [7]] } (.stack .pick)).result =
      .error .invalidStackOperation ∧
    (∃ left, Machine.execute ⟨.standard, .refuseAll, []⟩ { stack := [[1], [7], [2], [8], [8], []] }
        .checkMultiSig = .failed .sigCount left ∧ left.stack = [[1], [7], [2], [8], [8], []]) ∧
    Machine.execute ⟨.standard, .refuseAll, []⟩ { stack := [[1]] } .fromAltStack =
      .failed .invalidAltstackOperation { stack := [[1]] } := by
  obtain ⟨hfive, -⟩ := underflow_changes_nothing ⟨.standard, .refuseAll, []⟩
    { stack := [[5], [4], [3], [2], [1]], altStack := [[9]] }
  obtain ⟨htwo, -⟩ := underflow_changes_nothing ⟨.standard, .refuseAll, []⟩ { stack := [[1], [7]] }
  obtain ⟨-, hcheck, -⟩ := underflow_changes_nothing ⟨.standard, .refuseAll, []⟩
    { stack := [[1], [7], [2], [8], [8], []] }
  obtain ⟨-, -, -, hmove⟩ := underflow_changes_nothing ⟨.standard, .refuseAll, []⟩ { stack := [[1]] }
  refine ⟨(hfive (.stack .rot2) 6 rfl).1 (by decide), ?_, ?_, hmove rfl⟩
  · refine ((htwo (.stack .pick) 2 rfl).2 (by decide)).2 ⟨.inl rfl, [1], [[7]], 1, rfl, ?_, .inr (by decide)⟩
    decide
  · refine ⟨_, rfl, ?_⟩
    exact (hcheck .sigCount _ rfl).2.2 (by decide)

end Machine

end SpendCheck
