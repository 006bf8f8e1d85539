import Mathlib.Data.List.Perm.Subperm
import SpendCheck.Proofs.Machine.Frame

namespace SpendCheck

namespace Stack

/-- Up to their order, the elements afterwards are some of those before, each at most as
often, and at most `count` new ones, none of which is too long. -/
def Adds (count : Nat) (before after : Stack) : Prop :=
  ∃ new : Stack, new.length ≤ count ∧ (∀ element ∈ new, element.length ≤ maxElementSize) ∧
    after.Subperm (new ++ before)

variable {count more : Nat} {before between after stack rest : Stack}

theorem adds_of_subperm (count : Nat) (h : after.Subperm before) : Adds count before after :=
  ⟨[], Nat.zero_le count, fun _ helement => absurd helement List.not_mem_nil, h⟩

theorem Adds.refl (count : Nat) (stack : Stack) : Adds count stack stack :=
  adds_of_subperm count (List.Subperm.refl stack)

theorem adds_of_suffix (count : Nat) (h : rest <:+ stack) : Adds count stack rest :=
  adds_of_subperm count h.sublist.subperm

theorem Adds.mono (h : Adds count before after) (hle : count ≤ more) : Adds more before after := by
  obtain ⟨new, hcount, hsized, hsubperm⟩ := h
  exact ⟨new, Nat.le_trans hcount hle, hsized, hsubperm⟩

theorem Adds.trans (h : Adds count before between) (h' : Adds more between after) :
    Adds (count + more) before after := by
  obtain ⟨first, hfirst, hfirstSized, hbetween⟩ := h
  obtain ⟨second, hsecond, hsecondSized, hafter⟩ := h'
  refine ⟨second ++ first, ?_, ?_, ?_⟩
  · rw [List.length_append]
    omega
  · exact List.forall_mem_append.2 ⟨hsecondSized, hfirstSized⟩
  · rw [List.append_assoc]
    exact hafter.trans ((List.subperm_append_left second).2 hbetween)

/-- Further elements below do not change how many are added. -/
theorem Adds.append_right (h : Adds count before after) (others : Stack) :
    Adds count (before ++ others) (after ++ others) := by
  obtain ⟨new, hcount, hsized, hsubperm⟩ := h
  refine ⟨new, hcount, hsized, ?_⟩
  rw [← List.append_assoc]
  exact (List.subperm_append_right others).2 hsubperm

theorem adds_cons {element : Bytes} (h : element.length ≤ maxElementSize) (stack : Stack) :
    Adds 1 stack (element :: stack) :=
  ⟨[element], Nat.le_refl 1, List.forall_mem_singleton.2 h, List.Subperm.refl _⟩

theorem adds_push (element : Bytes) (stack : Stack) : Adds 1 stack (push element stack).state := by
  obtain hlong | hshort := Nat.lt_or_ge maxElementSize element.length
  · rw [push_of_lt hlong]
    exact Adds.refl 1 stack
  · rw [push_of_le hshort]
    exact adds_cons hshort stack

/-- Operands are taken away before a result is pushed. -/
theorem adds_push_of_suffix (element : Bytes) (h : rest <:+ stack) :
    Adds 1 stack (push element rest).state :=
  (adds_of_suffix 0 h).trans (adds_push element rest)

theorem Adds.andThen_push {o : Outcome Stack} (h : Adds count before o.state) (element : Bytes) :
    Adds (count + 1) before (o.andThen (push element)).state := by
  cases o with
  | done stack => exact h.trans (adds_push element stack)
  | failed e stack => exact h.mono (Nat.le_add_right _ _)

theorem adds_verify (error : ScriptError) (stack : Stack) :
    Adds 0 stack (verify error stack).state := by
  unfold verify
  split
  · exact Adds.refl 0 []
  · next element rest =>
    have hrest : rest <:+ element :: rest := List.suffix_cons element rest
    split
    · exact adds_of_suffix 0 hrest
    · exact adds_of_suffix 0 hrest

theorem Adds.andThen_verify {o : Outcome Stack} (h : Adds count before o.state)
    (error : ScriptError) : Adds count before (o.andThen (verify error)).state := by
  cases o with
  | done stack => exact h.trans (adds_verify error stack)
  | failed e stack => exact h

theorem adds_equal (stack : Stack) : Adds 1 stack stack.equal.state := by
  unfold equal
  split
  · exact adds_push_of_suffix _ ⟨[_, _], rfl⟩
  · exact Adds.refl 1 stack

theorem adds_within (stack : Stack) : Adds 1 stack stack.within.state := by
  unfold within
  split
  · split
    · exact Adds.refl 1 _
    · exact Adds.refl 1 _
    · exact Adds.refl 1 _
    · exact adds_push_of_suffix _ ⟨[_, _, _], rfl⟩
  · exact Adds.refl 1 stack

theorem adds_swap (count : Nat) (first second rest : Stack) :
    Adds count (first ++ second ++ rest) (second ++ first ++ rest) :=
  adds_of_subperm count (List.perm_append_comm.append_right rest).subperm

/-- A selection adds what is done with the selected element, as the index is taken away. -/
theorem adds_select {next : Stack → Nat → Bytes → Outcome Stack}
    (hnext : ∀ below depth element, Adds 1 below (next below depth element).state)
    (stack : Stack) : Adds 1 stack (stack.select next).state := by
  unfold select
  split
  · next index below =>
    have hbelow : below <:+ index :: below := List.suffix_cons index below
    split
    · exact adds_of_suffix 1 hbelow
    · split
      · exact adds_of_suffix 1 hbelow
      · split
        · exact adds_of_suffix 1 hbelow
        · exact (adds_of_suffix 0 hbelow).trans (hnext _ _ _)
  · exact Adds.refl 1 []

/-- The top element is too long to be pushed. -/
def HasOversizedTop (stack : Stack) : Prop :=
  ∃ element ∈ stack.head?, maxElementSize < element.length

/-- At most `count` elements more than before, and none that is too long and was
not there before. -/
structure Grows (count : Nat) (before after : Stack) : Prop where
  length_le : after.length ≤ before.length + count
  sized : ∀ element ∈ after, element ∈ before ∨ element.length ≤ maxElementSize

/-- Where few elements that are short enough are added, few elements are. -/
theorem Adds.grows (h : Adds count before after) : Grows count before after := by
  obtain ⟨new, hcount, hsized, hsubperm⟩ := h
  constructor
  · have hlength := hsubperm.length_le
    rw [List.length_append] at hlength
    omega
  · intro element helement
    obtain hnew | hbefore := List.mem_append.1 (hsubperm.subset helement)
    · exact .inr (hsized element hnew)
    · exact .inl hbefore

/-- A stack with at most so many elements, none of which is too long. -/
structure Bounded (limit : Nat) (stack : Stack) : Prop where
  length_le : stack.length ≤ limit
  sized : ∀ element ∈ stack, element.length ≤ maxElementSize

theorem Grows.append_right (h : Grows count before after) (others : Stack) :
    Grows count (before ++ others) (after ++ others) := by
  constructor
  · have hlength := h.length_le
    simp only [List.length_append]
    omega
  · intro element helement
    obtain hafter | hother := List.mem_append.1 helement
    · obtain hbefore | hshort := h.sized element hafter
      · exact .inl (List.mem_append_left others hbefore)
      · exact .inr hshort
    · exact .inl (List.mem_append_right before hother)

/-- Growth by a number of elements raises a bound by as much. -/
theorem Grows.bounded {limit : Nat} (h : Grows count before after) (hbefore : before.Bounded limit) :
    after.Bounded (limit + count) := by
  constructor
  · exact Nat.le_trans h.length_le (Nat.add_le_add_right hbefore.length_le count)
  · intro element helement
    obtain hold | hshort := h.sized element helement
    · exact hbefore.sized element hold
    · exact hshort

theorem Bounded.mono {limit larger : Nat} (h : stack.Bounded limit) (hle : limit ≤ larger) :
    stack.Bounded larger :=
  ⟨Nat.le_trans h.length_le hle, h.sized⟩

theorem Bounded.of_append_left {limit : Nat} {others : Stack} (h : (stack ++ others).Bounded limit) :
    stack.Bounded limit := by
  constructor
  · have hlength := h.length_le
    rw [List.length_append] at hlength
    omega
  · exact fun element helement => h.sized element (List.mem_append_left others helement)

end Stack

open Stack

theorem UnaryOperation.adds_apply (kind : UnaryOperation) (stack : Stack) :
    Adds 1 stack (kind.apply stack).state := by
  unfold apply
  split
  · split
    · exact Adds.refl 1 _
    · exact adds_push_of_suffix _ ⟨[_], rfl⟩
  · exact Adds.refl 1 []

theorem BinaryOperation.adds_apply (kind : BinaryOperation) (stack : Stack) :
    Adds 1 stack (kind.apply stack).state := by
  unfold apply
  split
  · split
    · exact Adds.refl 1 _
    · exact Adds.refl 1 _
    · exact adds_push_of_suffix _ ⟨[_, _], rfl⟩
  · exact Adds.refl 1 stack

theorem HashOperation.adds_apply (kind : HashOperation) (stack : Stack) :
    Adds 1 stack (kind.apply stack).state := by
  unfold apply
  split
  · exact adds_push_of_suffix _ ⟨[_], rfl⟩
  · exact Adds.refl 1 []

/-- Three more elements are the most that a rearrangement leaves. The copies that are
made of elements are measured, but for the one that is put below the second element. -/
theorem StackOperation.adds_apply {kind : StackOperation} {stack : Stack}
    (h : kind = .tuck → ¬stack.HasOversizedTop) : Adds 3 stack (kind.apply stack).state := by
  have hpick : ∀ (below : Stack) (depth : Nat) (element : Bytes),
      Adds 1 below (push element below).state := fun below _ element => adds_push element below
  have hroll : ∀ (below : Stack) (depth : Nat) (element : Bytes),
      Adds 1 below (push element (below.eraseIdx depth)).state := by
    intro below depth element
    have herased : Adds 0 below (below.eraseIdx depth) :=
      adds_of_subperm 0 (List.eraseIdx_sublist below depth).subperm
    exact herased.trans (adds_push element _)
  fun_cases StackOperation.apply kind stack with
  -- Elements are dropped.
  | case1 => exact adds_of_suffix 3 ⟨[_, _], rfl⟩
  | case10 => exact adds_of_suffix 3 ⟨[_], rfl⟩
  | case12 b a rest => exact adds_of_subperm 3 ((List.sublist_cons_self a rest).cons_cons b).subperm
  -- Elements are moved.
  | case5 f e d c b a rest => exact adds_swap 3 [f, e, d, c] [b, a] rest
  | case6 d c b a rest => exact adds_swap 3 [d, c] [b, a] rest
  | case16 c b a rest => exact adds_swap 3 [c, b] [a] rest
  | case17 b a rest => exact adds_swap 3 [b] [a] rest
  -- One element is copied, and the copy moved.
  | case18 b a rest =>
    have hshort : b.length ≤ maxElementSize := Nat.not_lt.1 fun hlong => h rfl ⟨b, rfl, hlong⟩
    exact ((adds_cons hshort (b :: a :: rest)).trans (adds_swap 0 [b] [b, a] rest)).mono (by omega)
  -- Elements are pushed.
  | case2 => exact ((adds_push _ _).andThen_push _).mono (by omega)
  | case3 => exact ((adds_push _ _).andThen_push _).andThen_push _
  | case4 => exact ((adds_push _ _).andThen_push _).mono (by omega)
  | case14 => exact (adds_select hpick _).mono (by omega)
  | case15 => exact (adds_select hroll _).mono (by omega)
  | case7 | case9 | case11 | case13 | case19 => exact (adds_push _ _).mono (by omega)
  | case8 | case20 => exact Adds.refl 3 _

/-- The copy that is not measured is one of an element that was there. -/
theorem StackOperation.grows_tuck (stack : Stack) :
    Grows 3 stack (StackOperation.tuck.apply stack).state := by
  match stack with
  | [] => exact (Adds.refl 3 []).grows
  | [b] => exact (Adds.refl 3 [b]).grows
  | b :: a :: rest =>
    refine ⟨Nat.add_le_add_left (by decide) _, ?_⟩
    intro element helement
    exact .inl (by simpa [apply, or_left_comm] using helement)

/-- Taking apart the arguments of a multiple signature check leaves the lowest of
them on what is below. -/
theorem MultiSig.suffix_of_ofStack? {keyCount : Nat} {stack : Stack} {args : MultiSig}
    (h : MultiSig.ofStack? keyCount stack = .ok args) : args.dummy :: args.base <:+ stack := by
  unfold ofStack? at h
  split at h
  · cases h
  · next element below hbelow =>
    cases hcount : Number.decodeCount keyCount .sigCount element with
    | error e => simp [hcount] at h
    | ok sigCount =>
      simp only [hcount] at h
      split at h
      · cases h
      · next dummy base hbase =>
        cases h
        have hdrop : dummy :: base <:+ below := hbase ▸ List.drop_suffix sigCount below
        have hcons : element :: below <:+ stack := hbelow ▸ List.drop_suffix keyCount stack
        exact hdrop.trans ((List.suffix_cons element below).trans hcons)

namespace Machine

variable (context : Context) (m : Machine)

/-- The elements of both stacks. -/
def elements (m : Machine) : Stack :=
  m.stack ++ m.altStack

theorem length_elements : m.elements.length = m.depth :=
  List.length_append

theorem adds_onStack {count : Nat} {operation : Stack → Outcome Stack}
    (h : ∀ stack, Adds count stack (operation stack).state) :
    m.elements.Adds count (m.onStack operation).state.elements := by
  rw [onStack_state]
  exact (h m.stack).append_right m.altStack

/-- Moving an element to the other stack adds nothing. -/
theorem adds_toAltStack : m.elements.Adds 0 m.toAltStack.state.elements := by
  unfold toAltStack
  split
  · exact Adds.refl 0 _
  · next element rest hstack =>
    rw [elements, hstack]
    exact adds_of_subperm 0 List.perm_middle.subperm

/-- Moving an element back is a push, which measures it and adds no more than this one. -/
theorem adds_fromAltStack : m.elements.Adds 1 m.fromAltStack.state.elements := by
  unfold fromAltStack
  split
  · exact Adds.refl 1 _
  · next element rest halt =>
    have htaken : m.elements.Adds 0 (m.stack ++ rest) := by
      rw [elements, halt]
      exact adds_of_subperm 0 ((List.sublist_cons_self element rest).append_left m.stack).subperm
    exact htaken.trans (adds_onStack { m with altStack := rest } (adds_push element))

theorem adds_ofBool_of_suffix (value : Bool) {rest stack : Stack} (h : rest <:+ stack) :
    Adds 1 stack (Number.ofBool value :: rest) := by
  have hshort : (Number.ofBool value).length ≤ maxElementSize := by cases value <;> decide
  exact (adds_of_suffix 0 h).trans (adds_cons hshort rest)

theorem adds_checkSig : m.stack.Adds 1 (m.checkSig context).state.stack := by
  apply checkSig_cases (P := fun o => m.stack.Adds 1 o.state.stack)
  · intro e
    exact Adds.refl 1 m.stack
  · intro pubkey sig rest call hstack _
    exact adds_ofBool_of_suffix call.valid ⟨[pubkey, sig], hstack.symm⟩

/-- The answer is added to what lies below the arguments, which is part of the stack. -/
theorem adds_settleMultiSig {args : MultiSig} (h : args.dummy :: args.base <:+ m.stack) :
    m.stack.Adds 1 (m.settleMultiSig context args).state.stack := by
  apply settleMultiSig_cases (P := fun o => m.stack.Adds 1 o.state.stack) context m args rfl
  · intro e
    exact Adds.refl 1 m.stack
  · exact adds_of_suffix 1 h
  · intro success
    exact adds_ofBool_of_suffix success ((List.suffix_cons args.dummy args.base).trans h)

theorem adds_checkMultiSig : m.stack.Adds 1 (m.checkMultiSig context).state.stack := by
  apply checkMultiSig_cases (P := fun o => m.stack.Adds 1 o.state.stack)
  · intro e
    exact Adds.refl 1 m.stack
  · intro e keyCount
    exact Adds.refl 1 m.stack
  · intro element below keyCount args hstack _ _ hargs
    have hbelow : below <:+ m.stack := hstack ▸ List.suffix_cons element below
    have htaken := (MultiSig.suffix_of_ofStack? hargs).trans hbelow
    exact adds_settleMultiSig context { m with opCount := m.opCount + keyCount } htaken

/-- A check acts on the upper stack alone. -/
theorem adds_elements {count : Nat} {m m' : Machine} (h : m.stack.Adds count m'.stack)
    (halt : m'.altStack = m.altStack) : m.elements.Adds count m'.elements := by
  rw [elements, elements, halt]
  exact h.append_right m.altStack

theorem adds_andThen_onStack {count : Nat} {before : Stack} {o : Outcome Machine}
    {operation : Stack → Outcome Stack} (h : before.Adds count o.state.elements)
    (hoperation : ∀ stack, Adds 0 stack (operation stack).state) :
    before.Adds count (o.andThen fun m => m.onStack operation).state.elements := by
  cases o with
  | done m => exact h.trans (adds_onStack m hoperation)
  | failed e m => exact h

theorem adds_checkSig_elements : m.elements.Adds 1 (m.checkSig context).state.elements := by
  obtain ⟨stack, calls, hstate⟩ := checkSig_state context m
  exact adds_elements (adds_checkSig context m) (by rw [hstate])

theorem adds_checkMultiSig_elements :
    m.elements.Adds 1 (m.checkMultiSig context).state.elements := by
  obtain ⟨stack, opCount, calls, -, hstate⟩ := checkMultiSig_state context m
  exact adds_elements (adds_checkMultiSig context m) (by rw [hstate])

theorem adds_branching (kind : Branching) : m.elements.Adds 0 (kind.apply m).state.elements := by
  apply branching_cases (P := fun o => m.elements.Adds 0 o.state.elements)
  · intro e
    exact Adds.refl 0 m.elements
  · intro stack conditions hstack _
    exact adds_elements (adds_of_suffix 0 hstack) rfl

/-- An operation leaves at most three elements more on both stacks together, also
where it fails. The elements that are too long are only moved, unless the copy is one
that is not measured. -/
theorem adds_execute {operation : Operation}
    (h : operation = .stack .tuck → ¬m.stack.HasOversizedTop) :
    m.elements.Adds 3 (m.execute context operation).state.elements := by
  cases operation with
  | nop | fail | codeSeparator | disabled | undefined => exact Adds.refl 3 _
  | branching kind => exact (adds_branching m kind).mono (by omega)
  | number value => exact (adds_onStack m (adds_push _)).mono (by omega)
  | verify => exact (adds_onStack m (adds_verify _)).mono (by omega)
  | toAltStack => exact (adds_toAltStack m).mono (by omega)
  | fromAltStack => exact (adds_fromAltStack m).mono (by omega)
  | stack kind =>
    have happly : Adds 3 m.stack (kind.apply m.stack).state :=
      StackOperation.adds_apply fun hkind => h (congrArg Operation.stack hkind)
    rw [execute, onStack_state]
    exact happly.append_right m.altStack
  | equal => exact (adds_onStack m adds_equal).mono (by omega)
  | equalVerify =>
    exact (adds_onStack m fun stack => (adds_equal stack).andThen_verify _).mono (by omega)
  | unary kind => exact (adds_onStack m kind.adds_apply).mono (by omega)
  | binary kind => exact (adds_onStack m kind.adds_apply).mono (by omega)
  | numEqualVerify =>
    exact (adds_onStack m fun stack =>
      (BinaryOperation.numEqual.adds_apply stack).andThen_verify _).mono (by omega)
  | within => exact (adds_onStack m adds_within).mono (by omega)
  | hash kind => exact (adds_onStack m kind.adds_apply).mono (by omega)
  | checkSig => exact (adds_checkSig_elements context m).mono (by omega)
  | checkSigVerify =>
    exact (adds_andThen_onStack (adds_checkSig_elements context m) (adds_verify _)).mono (by omega)
  | checkMultiSig => exact (adds_checkMultiSig_elements context m).mono (by omega)
  | checkMultiSigVerify =>
    exact (adds_andThen_onStack (adds_checkMultiSig_elements context m) (adds_verify _)).mono
      (by omega)

/-- No operation leaves an element that is too long and was not there before. -/
theorem grows_execute (operation : Operation) :
    m.elements.Grows 3 (m.execute context operation).state.elements := by
  by_cases htuck : operation = .stack .tuck
  · subst htuck
    rw [execute, onStack_state]
    exact (StackOperation.grows_tuck m.stack).append_right m.altStack
  · exact (adds_execute context m fun hoperation => absurd hoperation htuck).grows

/-- So does an instruction. -/
theorem grows_step (instruction : Instruction) :
    m.elements.Grows 3 (m.step context instruction).state.elements := by
  rw [step_state]
  apply perform_cases (P := fun left => m.elements.Grows 3 left.elements)
  · intro opCount _
    exact (Adds.refl 3 m.elements).grows
  · intro payload
    have hpush := adds_onStack { m with position := m.position + instruction.size } (adds_push payload)
    exact (hpush.mono (by omega)).grows
  · intro opcode opCount _ _ _ _
    exact grows_execute context
      { m with position := m.position + instruction.size, opCount := opCount } _

end Machine

end SpendCheck
