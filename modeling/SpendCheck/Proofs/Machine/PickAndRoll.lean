import Mathlib.Data.List.Rotate
import SpendCheck.Machine.Step
import SpendCheck.Proofs.Script.Number

namespace SpendCheck

open Stack

/-- Elements that are there and not too long to be pushed. -/
structure Stack.Offers (count : Nat) (stack : Stack) : Prop where
  length_le : count ≤ stack.length
  sized : ∀ element ∈ stack.take count, element.length ≤ maxElementSize

namespace Stack.Offers

variable {count : Nat} {stack : Stack}

theorem exists_cons (h : stack.Offers (count + 1)) :
    ∃ element rest, stack = element :: rest ∧ element.length ≤ maxElementSize ∧
      Offers count rest := by
  obtain ⟨element, rest, rfl, hcount⟩ := exists_cons_of_le h.length_le
  refine ⟨element, rest, rfl, h.sized element (by simp), hcount, ?_⟩
  intro other hother
  exact h.sized other (by simp [hother])

theorem exists_two (h : stack.Offers (count + 2)) :
    ∃ b a rest, stack = b :: a :: rest ∧ b.length ≤ maxElementSize ∧ a.length ≤ maxElementSize ∧
      Offers count rest := by
  obtain ⟨b, below, rfl, hb, hbelow⟩ := h.exists_cons
  obtain ⟨a, rest, rfl, ha, hrest⟩ := hbelow.exists_cons
  exact ⟨b, a, rest, rfl, hb, ha, hrest⟩

end Stack.Offers

namespace Operation

/-- Copies the element at a depth, counted from 0 at the top. -/
def copying (depth : Nat) : List Operation :=
  [.number depth, .stack .pick]

/-- Moves the element at a depth, counted from 0 at the top. -/
def moving (depth : Nat) : List Operation :=
  [.number depth, .stack .roll]

end Operation

open Operation

/-- How the operations that reach a fixed number of elements are put together of others,
with that number. -/
def StackOperation.spelling? : StackOperation → Option (Nat × List Operation)
  | .dup => some (1, copying 0)
  | .over => some (2, copying 1)
  | .dup2 => some (2, copying 1 ++ copying 1)
  | .dup3 => some (3, copying 2 ++ copying 2 ++ copying 2)
  | .over2 => some (4, copying 3 ++ copying 3)
  | .swap => some (2, moving 1)
  | .rot => some (3, moving 2)
  | .swap2 => some (4, moving 3 ++ moving 3)
  | .rot2 => some (6, moving 5 ++ moving 5)
  | .tuck => some (2, [.stack .swap, .stack .over])
  | .nip => some (2, [.stack .swap, .stack .drop])
  | .drop2 => some (2, [.stack .drop, .stack .drop])
  | .ifDup | .depth | .drop | .pick | .roll | .size => none

/-- An index that is on top of the elements selects one of them. -/
theorem Stack.select_encode {next : Stack → Nat → Bytes → Outcome Stack} {stack : Stack}
    {depth : Nat} {element : Bytes} (hdepth : depth < 2 ^ 31) (h : stack[depth]? = some element) :
    select next (Number.encode depth :: stack) = next stack depth element := by
  have hdecode : Number.decode Number.maxSize (Number.encode depth) = .ok (depth : Int) :=
    Number.decode_encode (by decide) (by simpa [Number.maxSize] using hdepth)
  simp only [select, hdecode, Int.not_ofNat_neg, if_false, Int.toNat_natCast, h]

namespace Machine

/-- Executes several operations, as long as none fails. -/
def executeAll (context : Context) : List Operation → Machine → Outcome Machine
  | [], m => .done m
  | operation :: rest, m => (m.execute context operation).andThen (executeAll context rest)

variable {context : Context} {m : Machine} {operations more : List Operation}
  {before between after : Stack} {element : Bytes}

/-- A list of operations can be executed in two parts. -/
theorem executeAll_append :
    m.executeAll context (operations ++ more) =
      (m.executeAll context operations).andThen (executeAll context more) := by
  induction operations generalizing m with
  | nil => rfl
  | cons operation rest ih =>
    rw [List.cons_append, executeAll, executeAll, Outcome.andThen_assoc]
    congr 1
    exact funext fun between => ih

/-- The operations succeed and replace a stack by another one, and nothing else. -/
def Turns (context : Context) (m : Machine) (operations : List Operation) (before after : Stack) : Prop :=
  executeAll context operations { m with stack := before } = .done { m with stack := after }

theorem Turns.append (h : m.Turns context operations before between)
    (h' : m.Turns context more between after) : m.Turns context (operations ++ more) before after := by
  rw [Turns, executeAll_append, h]
  exact h'

theorem turns_stack {kind : StackOperation} (h : kind.apply before = .done after) :
    m.Turns context [.stack kind] before after := by
  rw [Turns, executeAll, execute, onStack_of_done h]
  rfl

theorem turns_number {depth : Nat} (h : depth < 2 ^ 31) :
    m.Turns context [.number depth] before (Number.encode depth :: before) := by
  have hpush := Number.push_encode (show (depth : Int).natAbs < 2 ^ 39 by omega) before
  rw [Turns, executeAll, execute, onStack_of_done hpush]
  rfl

/-- A copy by depth puts the element on top and leaves it where it is. -/
theorem turns_copying {depth : Nat} (hdepth : depth < 2 ^ 31) (h : before[depth]? = some element)
    (hsize : element.length ≤ maxElementSize) :
    m.Turns context (copying depth) before (element :: before) := by
  obtain ⟨top, rest, rfl, -⟩ := exists_cons_of_le (List.getElem?_eq_some_iff.1 h).1
  refine (turns_number hdepth).append (turns_stack ?_)
  rw [StackOperation.apply, select_encode hdepth h, push_of_le hsize]

/-- A move by depth puts the element on top and closes the gap. -/
theorem turns_moving {depth : Nat} (hdepth : depth < 2 ^ 31) (h : before[depth]? = some element)
    (hsize : element.length ≤ maxElementSize) :
    m.Turns context (moving depth) before (element :: before.eraseIdx depth) := by
  obtain ⟨top, rest, rfl, -⟩ := exists_cons_of_le (List.getElem?_eq_some_iff.1 h).1
  refine (turns_number hdepth).append (turns_stack ?_)
  rw [StackOperation.apply, select_encode hdepth h, push_of_le hsize]

/-- An operation and its spelling turn a stack into the same. -/
theorem exists_turns_spelling {kind : StackOperation} {count : Nat}
    (hkind : kind.spelling? = some (count, operations)) (h : before.Offers count) :
    ∃ after, m.Turns context [.stack kind] before after ∧ m.Turns context operations before after := by
  cases kind with
  | dup =>
    cases hkind
    obtain ⟨a, rest, rfl, ha, -⟩ := h.exists_cons
    exact ⟨a :: a :: rest, turns_stack (push_of_le ha _), turns_copying (by decide) rfl ha⟩
  | «over» =>
    cases hkind
    obtain ⟨b, a, rest, rfl, -, ha, -⟩ := h.exists_two
    exact ⟨a :: b :: a :: rest, turns_stack (push_of_le ha _), turns_copying (by decide) rfl ha⟩
  | dup2 =>
    cases hkind
    obtain ⟨b, a, rest, rfl, hb, ha, -⟩ := h.exists_two
    have happly : StackOperation.dup2.apply (b :: a :: rest) = .done (b :: a :: b :: a :: rest) := by
      rw [StackOperation.apply, push_of_le ha, Outcome.done_andThen, push_of_le hb]
    exact ⟨_, turns_stack happly,
      (turns_copying (by decide) rfl ha).append (turns_copying (by decide) rfl hb)⟩
  | dup3 =>
    cases hkind
    obtain ⟨c, below, rfl, hc, hbelow⟩ := h.exists_cons
    obtain ⟨b, a, rest, rfl, hb, ha, -⟩ := hbelow.exists_two
    have happly : StackOperation.dup3.apply (c :: b :: a :: rest) =
        .done (c :: b :: a :: c :: b :: a :: rest) := by
      rw [StackOperation.apply, push_of_le ha, Outcome.done_andThen, push_of_le hb,
        Outcome.done_andThen, push_of_le hc]
    exact ⟨_, turns_stack happly, ((turns_copying (by decide) rfl ha).append
      (turns_copying (by decide) rfl hb)).append (turns_copying (by decide) rfl hc)⟩
  | over2 =>
    cases hkind
    obtain ⟨d, c, below, rfl, -, -, hbelow⟩ := h.exists_two
    obtain ⟨b, a, rest, rfl, hb, ha, -⟩ := hbelow.exists_two
    have happly : StackOperation.over2.apply (d :: c :: b :: a :: rest) =
        .done (b :: a :: d :: c :: b :: a :: rest) := by
      rw [StackOperation.apply, push_of_le ha, Outcome.done_andThen, push_of_le hb]
    exact ⟨_, turns_stack happly,
      (turns_copying (by decide) rfl ha).append (turns_copying (by decide) rfl hb)⟩
  | swap =>
    cases hkind
    obtain ⟨b, a, rest, rfl, -, ha, -⟩ := h.exists_two
    exact ⟨a :: b :: rest, turns_stack rfl, turns_moving (by decide) rfl ha⟩
  | rot =>
    cases hkind
    obtain ⟨c, below, rfl, -, hbelow⟩ := h.exists_cons
    obtain ⟨b, a, rest, rfl, -, ha, -⟩ := hbelow.exists_two
    exact ⟨a :: c :: b :: rest, turns_stack rfl, turns_moving (by decide) rfl ha⟩
  | swap2 =>
    cases hkind
    obtain ⟨d, c, below, rfl, -, -, hbelow⟩ := h.exists_two
    obtain ⟨b, a, rest, rfl, hb, ha, -⟩ := hbelow.exists_two
    exact ⟨b :: a :: d :: c :: rest, turns_stack rfl,
      (turns_moving (by decide) rfl ha).append (turns_moving (by decide) rfl hb)⟩
  | rot2 =>
    cases hkind
    obtain ⟨f, e, below, rfl, -, -, hbelow⟩ := h.exists_two
    obtain ⟨d, c, deeper, rfl, -, -, hdeeper⟩ := hbelow.exists_two
    obtain ⟨b, a, rest, rfl, hb, ha, -⟩ := hdeeper.exists_two
    exact ⟨b :: a :: f :: e :: d :: c :: rest, turns_stack rfl,
      (turns_moving (by decide) rfl ha).append (turns_moving (by decide) rfl hb)⟩
  | tuck =>
    cases hkind
    obtain ⟨b, a, rest, rfl, hb, -, -⟩ := h.exists_two
    have hswap : m.Turns context [.stack .swap] (b :: a :: rest) (a :: b :: rest) := turns_stack rfl
    have hover : m.Turns context [.stack .over] (a :: b :: rest) (b :: a :: b :: rest) :=
      turns_stack (push_of_le hb _)
    exact ⟨b :: a :: b :: rest, turns_stack rfl, hswap.append hover⟩
  | nip =>
    cases hkind
    obtain ⟨b, a, rest, rfl, -, -, -⟩ := h.exists_two
    have hswap : m.Turns context [.stack .swap] (b :: a :: rest) (a :: b :: rest) := turns_stack rfl
    have hdrop : m.Turns context [.stack .drop] (a :: b :: rest) (b :: rest) := turns_stack rfl
    exact ⟨b :: rest, turns_stack rfl, hswap.append hdrop⟩
  | drop2 =>
    cases hkind
    obtain ⟨b, a, rest, rfl, -, -, -⟩ := h.exists_two
    have hfirst : m.Turns context [.stack .drop] (b :: a :: rest) (a :: rest) := turns_stack rfl
    have hsecond : m.Turns context [.stack .drop] (a :: rest) rest := turns_stack rfl
    exact ⟨rest, turns_stack rfl, hfirst.append hsecond⟩
  | ifDup | depth | drop | pick | roll | size => cases hkind

/-- The element at a depth moves in front of those above it: they are rotated with it. -/
theorem turns_moving_rotate {front : Stack} {depth : Nat} (hdepth : depth < 2 ^ 31)
    (hlength : front.length = depth + 1) (hsized : ∀ element ∈ front, element.length ≤ maxElementSize)
    (rest : Stack) :
    m.Turns context (moving depth) (front ++ rest) (front.rotate depth ++ rest) := by
  obtain rfl | ⟨above, element, rfl⟩ := List.eq_nil_or_concat' front
  · cases hlength
  · obtain rfl : above.length = depth := by simpa using hlength
    have hget : (above ++ [element] ++ rest)[above.length]? = some element := by simp
    have hmove : m.Turns context (moving above.length) _ _ :=
      turns_moving hdepth hget (hsized element (by simp))
    have herase : (above ++ [element] ++ rest).eraseIdx above.length = above ++ rest := by
      rw [List.append_assoc, List.eraseIdx_append_of_length_le (Nat.le_refl _), Nat.sub_self]
      rfl
    rw [herase] at hmove
    rw [List.rotate_append_length_eq]
    exact hmove

/-- Moving the lowest of some elements to the top again and again turns them round step by step. -/
theorem turns_moving_rotate_mul {front : Stack} {depth : Nat} (hdepth : depth < 2 ^ 31)
    (hlength : front.length = depth + 1) (hsized : ∀ element ∈ front, element.length ≤ maxElementSize)
    (rest : Stack) (times : Nat) :
    m.Turns context (List.replicate times (moving depth)).flatten (front ++ rest)
      (front.rotate (times * depth) ++ rest) := by
  induction times with
  | zero =>
    rw [Nat.zero_mul, List.rotate_zero]
    rfl
  | succ times ih =>
    have hmove : m.Turns context (moving depth) (front.rotate (times * depth) ++ rest) _ :=
      turns_moving_rotate hdepth (by simpa using hlength) (by simpa using hsized) rest
    rw [List.rotate_rotate, ← Nat.succ_mul] at hmove
    rw [List.replicate_succ', List.flatten_concat]
    exact ih.append hmove

/-- As often as there are elements in it, a rotation ends where it started. -/
theorem turns_moving_all {depth : Nat} (hdepth : depth < 2 ^ 31) (h : before.Offers (depth + 1)) :
    m.Turns context (List.replicate (depth + 1) (moving depth)).flatten before before := by
  have hlength : (before.take (depth + 1)).length = depth + 1 := List.length_take_of_le h.length_le
  have hmoves : m.Turns context _ _ _ :=
    turns_moving_rotate_mul hdepth hlength h.sized (before.drop (depth + 1)) (depth + 1)
  have hcycle := List.rotate_length_mul (before.take (depth + 1)) depth
  rw [hlength] at hcycle
  rw [hcycle, List.take_append_drop] at hmoves
  exact hmoves

end Machine

/-- Operations that reach a fixed number of elements do the same as those that are told
how deep to reach: they and their spellings succeed and leave the same machine, where
the elements are there and not too long. To move the element at one depth again and
again, as often as there are elements down to it, restores the machine. The stacks are
not measured in between, as they are after each instruction of a script. -/
theorem rearrangements_agree_with_pick_and_roll (context : Context) (m : Machine) :
    (∀ kind count operations, kind.spelling? = some (count, operations) → m.stack.Offers count →
      ∃ stack, m.execute context (.stack kind) = .done { m with stack := stack } ∧
        m.executeAll context operations = .done { m with stack := stack }) ∧
    ∀ depth, depth < 2 ^ 31 → m.stack.Offers (depth + 1) →
      m.executeAll context (List.replicate (depth + 1) (moving depth)).flatten = .done m := by
  constructor
  · intro kind count operations hkind hoffers
    obtain ⟨stack, hone, hspelled⟩ := Machine.exists_turns_spelling hkind hoffers
    refine ⟨stack, ?_, hspelled⟩
    obtain ⟨left, hleft, hstack⟩ := Outcome.andThen_eq_done_iff.1 hone
    cases hstack
    exact hleft
  · intro depth hdepth hoffers
    exact Machine.turns_moving_all hdepth hoffers

/-- Two elements from the bottom of six, one after the other, and a cycle of three. -/
theorem two_rolls_and_cycle_of_three :
    Machine.executeAll ⟨.standard, .refuseAll, []⟩ (moving 5 ++ moving 5)
        { stack := [[6], [5], [4], [3], [2], [1]], altStack := [[9]] } =
      .done { stack := [[2], [1], [6], [5], [4], [3]], altStack := [[9]] } ∧
    Machine.executeAll ⟨.standard, .refuseAll, []⟩ (List.replicate 3 (moving 2)).flatten
        { stack := [[6], [5], [4], [3], [2], [1]], altStack := [[9]] } =
      .done { stack := [[6], [5], [4], [3], [2], [1]], altStack := [[9]] } := by
  obtain ⟨hspelled, hcycle⟩ := rearrangements_agree_with_pick_and_roll ⟨.standard, .refuseAll, []⟩
    { stack := [[6], [5], [4], [3], [2], [1]], altStack := [[9]] }
  obtain ⟨stack, hone, hrolls⟩ := hspelled .rot2 6 (moving 5 ++ moving 5) rfl ⟨by decide, by decide⟩
  cases hone
  exact ⟨hrolls, hcycle 2 (by decide) ⟨by decide, by decide⟩⟩

end SpendCheck
