import SpendCheck.Machine.Arithmetic
import SpendCheck.Machine.Rearrangement
import SpendCheck.Proofs.Guarded.Action
import SpendCheck.Proofs.Guarded.Number

namespace SpendCheck.Guarded

open Checked Guarded.Action

/-- The elements of a stack, the top one last. -/
abbrev Items := List Bytes

namespace Items

/-! The access to single elements. -/

/-- Places an element on top, unless it is too long. -/
def push (element : Bytes) : Action Items Unit := do
  if maxElementSize < element.length then throw .pushSize
  modify (· ++ [element])

/-- Takes the top element away, or fails with a given reason. -/
def popOr (error : ScriptError) : Action Items Bytes := do
  match (← get).getLast? with
  | none => throw error
  | some element =>
    modify List.dropLast
    return element

/-- Takes the top element away. -/
def pop : Action Items Bytes :=
  popOr .invalidStackOperation

/-- Throws the top element away. -/
def drop : Action Items Unit := do
  let _ ← pop
  return

/-- Fails if there are not so many elements. -/
def require (depth : Nat) : Action Items Unit := do
  if (← get).length < depth then throw .invalidStackOperation

/-- The position of a depth, counted from 1 at the top. -/
def fromTop (depth : Nat) : Action Items Nat := do
  difference (← get).length depth

/-- The element at a depth. -/
def top (depth : Nat) : Action Items Bytes := do
  require depth
  let position ← fromTop depth
  Checked.get (← get) position

/-- Reads an operand. -/
def operand {σ : Type} (element : Bytes) : Action σ Int := do
  adopt (← decodeNumber Number.maxSize element)

variable {stack rest : Stack} {element : Bytes} {β : Type}

theorem exec_push (element : Bytes) (stack : Stack) :
    exec (push element) stack.reverse = seen List.reverse (Stack.push element stack) := by
  unfold push Stack.push
  by_cases hsize : maxElementSize < element.length
  · simp [hsize]
  · simp [hsize]

theorem exec_popOr_nil (error : ScriptError) : exec (popOr error) [] = .ok (.error error, []) := rfl

theorem exec_popOr_cons (error : ScriptError) :
    exec (popOr error) (element :: rest).reverse = .ok (.ok element, rest.reverse) := by
  have hlast : (element :: rest).reverse.getLast? = some element := List.getLast?_reverse
  unfold popOr
  rw [exec_bind_of_ok exec_get, hlast]
  dsimp only
  rw [exec_bind_of_ok (exec_modify _), exec_pure, List.dropLast_reverse, List.tail_cons]

theorem exec_pop_cons : exec pop (element :: rest).reverse = .ok (.ok element, rest.reverse) :=
  exec_popOr_cons _

theorem exec_drop_cons : exec drop (element :: rest).reverse = .ok (.ok (), rest.reverse) := by
  rw [drop, exec_bind_of_ok exec_pop_cons, exec_pure]

theorem exec_require_of_le {depth : Nat} (h : depth ≤ stack.length) :
    exec (require depth) stack.reverse = .ok (.ok (), stack.reverse) := by
  unfold require
  simp [Nat.not_lt.2 h]

theorem exec_require_of_lt {depth : Nat} (h : stack.length < depth) :
    exec (require depth) stack.reverse = .ok (.error .invalidStackOperation, stack.reverse) := by
  unfold require
  simp [h]

theorem exec_require_bind_of_le {depth : Nat} {next : Unit → Action Items Unit} (h : depth ≤ stack.length) :
    exec (require depth >>= next) stack.reverse = exec (next ()) stack.reverse :=
  exec_bind_of_ok (exec_require_of_le h)

theorem exec_require_bind_of_lt {depth : Nat} {next : Unit → Action Items Unit} (h : stack.length < depth) :
    exec (require depth >>= next) stack.reverse =
      seen List.reverse (.failed .invalidStackOperation stack) := by
  rw [exec_bind, exec_require_of_lt h]
  rfl

theorem exec_fromTop {front back : Items} {depth : Nat} (h : depth ≤ back.length) :
    exec (fromTop depth) (front ++ back) =
      .ok (.ok (front.length + (back.length - depth)), front ++ back) := by
  rw [fromTop, exec_bind_of_ok exec_get, exec_lift_of_ok (difference_length_append h)]

/-- What is at a position is on top of what is behind it, seen from the other end. -/
theorem exists_append_of_getElem? {depth : Nat} (h : stack[depth]? = some element) :
    ∃ above below, stack = above ++ element :: below ∧ above.length = depth := by
  obtain ⟨hlt, rfl⟩ := List.getElem?_eq_some_iff.1 h
  refine ⟨stack.take depth, stack.drop (depth + 1), ?_, List.length_take_of_le (Nat.le_of_lt hlt)⟩
  rw [← List.drop_eq_getElem_cons hlt, List.take_append_drop]

/-- The position at a depth is found for every depth but zero. -/
theorem exec_top (depth : Nat) :
    exec (top (depth + 1)) stack.reverse = .ok (Stack.top (depth + 1) stack, stack.reverse) := by
  unfold top
  by_cases hdepth : depth + 1 ≤ stack.length
  · obtain ⟨above, below, hstack, hlength⟩ := exists_append_of_getElem? (List.getElem?_eq_getElem hdepth)
    have hitems : stack.reverse = below.reverse ++ stack[depth] :: above.reverse := by
      nth_rewrite 1 [hstack]
      simp
    have hfound : Stack.top (depth + 1) stack = .ok stack[depth] := by
      rw [Stack.top, Nat.add_sub_cancel, List.getElem?_eq_getElem hdepth]
    have hback : depth + 1 = (stack[depth] :: above.reverse).length := by
      rw [List.length_cons, List.length_reverse, hlength]
    rw [exec_bind_of_ok (exec_require_of_le hdepth), hfound, hitems,
      exec_bind_of_ok (exec_fromTop (Nat.le_of_eq hback)), exec_bind_of_ok exec_get, ← hback, Nat.sub_self,
      exec_lift_of_ok (get_append.trans rfl)]
  · have hnone : stack[depth]? = none := List.getElem?_eq_none (Nat.not_lt.1 hdepth)
    rw [exec_bind, exec_require_of_lt (Nat.not_le.1 hdepth), Stack.top, Nat.add_sub_cancel, hnone]
    rfl

-- Every stack has as many as zero elements, but none of them is at depth zero.
example : exec (top 0) [[1]] = .error .index := rfl

theorem exec_top_of_getElem? {depth : Nat} (h : stack[depth]? = some element) :
    exec (top (depth + 1)) stack.reverse = .ok (.ok element, stack.reverse) := by
  rw [exec_top, Stack.top, Nat.add_sub_cancel, h]

theorem exec_top_bind_of_getElem? {depth : Nat} {next : Bytes → Action Items Unit}
    (h : stack[depth]? = some element) :
    exec (top (depth + 1) >>= next) stack.reverse = exec (next element) stack.reverse :=
  exec_bind_of_ok (exec_top_of_getElem? h)

theorem exec_operand {σ : Type} (element : Bytes) (s : σ) :
    exec (operand element) s = .ok (Number.decode Number.maxSize element, s) := by
  unfold operand
  rw [exec_bind_of_ok (exec_lift_of_ok (decodeNumber_eq_ok (by decide) element)), exec_adopt]

/-! The rearrangements compute positions from the number of elements. -/

/-- Takes the top element away as an index, and computes the position that it names. -/
def indexed : Action Items Nat := do
  let depth ← operand (← pop)
  let length := (← get).length
  if depth < 0 ∨ length ≤ depth.toNat then throw .invalidStackOperation
  let last ← difference length 1
  difference last depth.toNat

/-- Exchanges the elements at two depths. -/
def exchange (first second : Nat) : Action Items Unit := do
  let a ← fromTop first
  let b ← fromTop second
  set (← swap (← get) a b)

/-- The effect of a rearrangement. -/
def rearrange : StackOperation → Action Items Unit
  | .drop2 => do
    require 2
    drop
    drop
  | .dup2 => do
    let first ← top 2
    let second ← top 1
    push first
    push second
  | .dup3 => do
    let first ← top 3
    let second ← top 2
    let third ← top 1
    push first
    push second
    push third
  | .over2 => do
    let first ← top 4
    let second ← top 3
    push first
    push second
  | .rot2 => do
    require 6
    let start ← fromTop 6
    let stop ← fromTop 4
    let taken ← drain (← get) start stop
    set (taken.2 ++ taken.1)
  | .swap2 => do
    require 4
    exchange 4 2
    exchange 3 1
  | .ifDup => do
    let value ← top 1
    if ← truthy value then push value
  | .depth => do push (Number.encode (← get).length)
  | .drop => drop
  | .dup => do push (← top 1)
  | .nip => do
    require 2
    let position ← fromTop 2
    let removed ← remove (← get) position
    set removed.2
  | .over => do push (← top 2)
  | .pick => do
    require 2
    let position ← indexed
    push (← Checked.get (← get) position)
  | .roll => do
    require 2
    let position ← indexed
    let removed ← remove (← get) position
    set removed.2
    push removed.1
  | .rot => do
    require 3
    exchange 3 2
    exchange 2 1
  | .swap => do
    require 2
    exchange 2 1
  | .tuck => do
    require 2
    let value ← Checked.get (← get) (← fromTop 1)
    set (← insert (← get) (← fromTop 2) value)
  | .size => do push (Number.encode (← top 1).length)

/-- Two positions counted from the end of the vector, where the top is, are exchanged, and what
is in front of them stays. -/
theorem exec_exchange {front back exchanged : Items} {first second : Nat} (hfirst : first ≤ back.length)
    (hsecond : second ≤ back.length)
    (h : swap back (back.length - first) (back.length - second) = .ok exchanged) :
    exec (exchange first second) (front ++ back) = .ok (.ok (), front ++ exchanged) := by
  rw [exchange, exec_bind_of_ok (exec_fromTop hfirst), exec_bind_of_ok (exec_fromTop hsecond),
    exec_bind_of_ok exec_get, exec_bind_of_ok (exec_lift_of_ok (swap_append.trans (congrArg _ h))), exec_set]

-- Both sides are met as they compute at the given kind: `rw` and `simp` with `rearrange` and
-- `StackOperation.apply` would need the equations of all the other kinds too.

theorem rearrange_drop2 (stack : Stack) :
    exec (rearrange .drop2) stack.reverse = seen List.reverse (StackOperation.apply .drop2 stack) := by
  rcases stack with _ | ⟨b, _ | ⟨a, rest⟩⟩
  iterate 2 exact exec_require_bind_of_lt (by simp)
  refine (exec_require_bind_of_le (Nat.le_add_left 2 _)).trans ?_
  rw [exec_bind_of_ok exec_drop_cons, exec_drop_cons]
  rfl

theorem rearrange_drop (stack : Stack) :
    exec (rearrange .drop) stack.reverse = seen List.reverse (StackOperation.apply .drop stack) := by
  rcases stack with _ | ⟨a, rest⟩
  · rfl
  · exact exec_drop_cons

/-! Copies read what they copy before they push it. -/

theorem rearrange_dup2 (stack : Stack) :
    exec (rearrange .dup2) stack.reverse = seen List.reverse (StackOperation.apply .dup2 stack) := by
  rcases stack with _ | ⟨b, _ | ⟨a, rest⟩⟩
  · rfl
  · rfl
  · refine Eq.trans (exec_top_bind_of_getElem? rfl) ?_
    rw [exec_top_bind_of_getElem? rfl]
    exact exec_bind_of_seen (exec_push a _) fun t _ => exec_push b t

/-- All three elements are read before the first copy is pushed, so their depths do not shift. -/
theorem rearrange_dup3 (stack : Stack) :
    exec (rearrange .dup3) stack.reverse = seen List.reverse (StackOperation.apply .dup3 stack) := by
  rcases stack with _ | ⟨c, _ | ⟨b, _ | ⟨a, rest⟩⟩⟩
  iterate 3 rfl
  refine Eq.trans (exec_top_bind_of_getElem? rfl) ?_
  rw [exec_top_bind_of_getElem? rfl, exec_top_bind_of_getElem? rfl]
  change _ = seen List.reverse
    (((Stack.push a (c :: b :: a :: rest)).andThen (Stack.push b)).andThen (Stack.push c))
  rw [Outcome.andThen_assoc]
  exact exec_bind_of_seen (exec_push a _) fun t _ =>
    exec_bind_of_seen (exec_push b t) fun t _ => exec_push c t

theorem rearrange_over2 (stack : Stack) :
    exec (rearrange .over2) stack.reverse = seen List.reverse (StackOperation.apply .over2 stack) := by
  rcases stack with _ | ⟨d, _ | ⟨c, _ | ⟨b, _ | ⟨a, rest⟩⟩⟩⟩
  iterate 4 rfl
  refine Eq.trans (exec_top_bind_of_getElem? rfl) ?_
  rw [exec_top_bind_of_getElem? rfl]
  exact exec_bind_of_seen (exec_push a _) fun t _ => exec_push b t

theorem rearrange_ifDup (stack : Stack) :
    exec (rearrange .ifDup) stack.reverse = seen List.reverse (StackOperation.apply .ifDup stack) := by
  rcases stack with _ | ⟨a, rest⟩
  · rfl
  · refine Eq.trans (exec_top_bind_of_getElem? rfl) ?_
    rw [exec_bind_of_ok (exec_lift_of_ok (truthy_eq_ok a))]
    change _ = seen List.reverse (if Number.truthy a then Stack.push a (a :: rest) else .done (a :: rest))
    split
    · exact exec_push a _
    · rfl

theorem rearrange_depth (stack : Stack) :
    exec (rearrange .depth) stack.reverse = seen List.reverse (StackOperation.apply .depth stack) := by
  refine (exec_bind_of_ok exec_get).trans ?_
  rw [List.length_reverse]
  exact exec_push _ stack

theorem rearrange_dup (stack : Stack) :
    exec (rearrange .dup) stack.reverse = seen List.reverse (StackOperation.apply .dup stack) := by
  rcases stack with _ | ⟨a, rest⟩
  · rfl
  · refine Eq.trans (exec_top_bind_of_getElem? rfl) ?_
    exact exec_push a _

theorem rearrange_over (stack : Stack) :
    exec (rearrange .over) stack.reverse = seen List.reverse (StackOperation.apply .over stack) := by
  rcases stack with _ | ⟨b, _ | ⟨a, rest⟩⟩
  · rfl
  · rfl
  · refine Eq.trans (exec_top_bind_of_getElem? rfl) ?_
    exact exec_push a _

theorem rearrange_size (stack : Stack) :
    exec (rearrange .size) stack.reverse = seen List.reverse (StackOperation.apply .size stack) := by
  rcases stack with _ | ⟨a, rest⟩
  · rfl
  · refine Eq.trans (exec_top_bind_of_getElem? rfl) ?_
    exact exec_push _ _

/-! Moves. The elements at the top are the same positions of the back of the list. -/

/-- The two lowest of six elements are cut out and appended. -/
theorem rearrange_rot2 (stack : Stack) :
    exec (rearrange .rot2) stack.reverse = seen List.reverse (StackOperation.apply .rot2 stack) := by
  rcases stack with _ | ⟨f, _ | ⟨e, _ | ⟨d, _ | ⟨c, _ | ⟨b, _ | ⟨a, rest⟩⟩⟩⟩⟩⟩
  iterate 6 exact exec_require_bind_of_lt (by simp)
  have hitems : (f :: e :: d :: c :: b :: a :: rest).reverse = rest.reverse ++ [a, b, c, d, e, f] := by
    simp
  refine (exec_require_bind_of_le (Nat.le_add_left 6 _)).trans ?_
  rw [hitems, exec_bind_of_ok (exec_fromTop (by simp)), exec_bind_of_ok (exec_fromTop (by simp)),
    exec_bind_of_ok exec_get, exec_bind_of_ok (exec_lift_of_ok (drain_append.trans rfl)), exec_set]
  change _ = seen List.reverse (.done (b :: a :: f :: e :: d :: c :: rest))
  simp

theorem rearrange_swap2 (stack : Stack) :
    exec (rearrange .swap2) stack.reverse = seen List.reverse (StackOperation.apply .swap2 stack) := by
  rcases stack with _ | ⟨d, _ | ⟨c, _ | ⟨b, _ | ⟨a, rest⟩⟩⟩⟩
  iterate 4 exact exec_require_bind_of_lt (by simp)
  have hitems : (d :: c :: b :: a :: rest).reverse = rest.reverse ++ [a, b, c, d] := by simp
  refine (exec_require_bind_of_le (Nat.le_add_left 4 _)).trans ?_
  rw [hitems, exec_bind_of_ok (exec_exchange (by simp) (by simp) rfl),
    exec_exchange (by simp) (by simp) rfl]
  change _ = seen List.reverse (.done (b :: a :: d :: c :: rest))
  simp

theorem rearrange_rot (stack : Stack) :
    exec (rearrange .rot) stack.reverse = seen List.reverse (StackOperation.apply .rot stack) := by
  rcases stack with _ | ⟨c, _ | ⟨b, _ | ⟨a, rest⟩⟩⟩
  iterate 3 exact exec_require_bind_of_lt (by simp)
  have hitems : (c :: b :: a :: rest).reverse = rest.reverse ++ [a, b, c] := by simp
  refine (exec_require_bind_of_le (Nat.le_add_left 3 _)).trans ?_
  rw [hitems, exec_bind_of_ok (exec_exchange (by simp) (by simp) rfl),
    exec_exchange (by simp) (by simp) rfl]
  change _ = seen List.reverse (.done (a :: c :: b :: rest))
  simp

theorem rearrange_swap (stack : Stack) :
    exec (rearrange .swap) stack.reverse = seen List.reverse (StackOperation.apply .swap stack) := by
  rcases stack with _ | ⟨b, _ | ⟨a, rest⟩⟩
  iterate 2 exact exec_require_bind_of_lt (by simp)
  have hitems : (b :: a :: rest).reverse = rest.reverse ++ [a, b] := by simp
  refine (exec_require_bind_of_le (Nat.le_add_left 2 _)).trans ?_
  rw [hitems, exec_exchange (by simp) (by simp) rfl]
  change _ = seen List.reverse (.done (a :: b :: rest))
  simp

theorem rearrange_nip (stack : Stack) :
    exec (rearrange .nip) stack.reverse = seen List.reverse (StackOperation.apply .nip stack) := by
  rcases stack with _ | ⟨b, _ | ⟨a, rest⟩⟩
  iterate 2 exact exec_require_bind_of_lt (by simp)
  have hitems : (b :: a :: rest).reverse = rest.reverse ++ [a, b] := by simp
  refine (exec_require_bind_of_le (Nat.le_add_left 2 _)).trans ?_
  rw [hitems, exec_bind_of_ok (exec_fromTop (by simp)), exec_bind_of_ok exec_get,
    exec_bind_of_ok (exec_lift_of_ok (remove_append.trans rfl)), exec_set]
  change _ = seen List.reverse (.done (b :: rest))
  simp

/-- A copy of the top element is inserted below the second one. It is not measured. -/
theorem rearrange_tuck (stack : Stack) :
    exec (rearrange .tuck) stack.reverse = seen List.reverse (StackOperation.apply .tuck stack) := by
  rcases stack with _ | ⟨b, _ | ⟨a, rest⟩⟩
  iterate 2 exact exec_require_bind_of_lt (by simp)
  have hitems : (b :: a :: rest).reverse = rest.reverse ++ [a, b] := by simp
  refine (exec_require_bind_of_le (Nat.le_add_left 2 _)).trans ?_
  rw [hitems, exec_bind_of_ok exec_get, exec_bind_of_ok (exec_fromTop (by simp)),
    exec_bind_of_ok (exec_lift_of_ok (get_append.trans rfl)), exec_bind_of_ok exec_get,
    exec_bind_of_ok (exec_fromTop (by simp)), exec_bind_of_ok (exec_lift_of_ok (insert_append.trans rfl)),
    exec_set]
  change _ = seen List.reverse (.done (b :: a :: b :: rest))
  simp

/-! An index from the stack names a position if it is not negative and small enough. -/

/-- An index that names an element splits the stack in front of it and behind it. The position
is the number of elements below. -/
theorem exec_indexed_bind {index : Bytes} {next : Nat → Action Items Unit}
    {g : Stack → Nat → Bytes → Outcome Stack}
    (h : ∀ above element below, stack = above ++ element :: below →
      exec (next below.length) stack.reverse = seen List.reverse (g stack above.length element)) :
    exec (indexed >>= next) (index :: stack).reverse =
      seen List.reverse (Stack.select g (index :: stack)) := by
  have hexec : exec indexed (index :: stack).reverse = exec (do
      let depth ← operand index
      let length := (← get).length
      if depth < 0 ∨ length ≤ depth.toNat then throw .invalidStackOperation
      let last ← difference length 1
      difference last depth.toNat) stack.reverse := exec_bind_of_ok exec_pop_cons
  rw [exec_bind, hexec, exec_bind, exec_operand, Stack.select]
  cases Number.decode Number.maxSize index with
  | error e => rfl
  | ok depth =>
    rw [ok_bind, resume_ok, exec_bind_of_ok exec_get, List.length_reverse]
    dsimp only
    by_cases hnegative : depth < 0
    · simp [hnegative]
    by_cases hinside : depth.toNat < stack.length
    · obtain ⟨above, below, hstack, hlength⟩ :=
        exists_append_of_getElem? (List.getElem?_eq_getElem hinside)
      have hsize : stack.length = above.length + 1 + below.length := by
        rw [hstack]
        simp
        omega
      have hlast : difference stack.length 1 = .ok (above.length + below.length) := by
        rw [difference_eq_ok (by omega)]
        congr 1
        omega
      have hposition : difference (above.length + below.length) depth.toNat = .ok below.length := by
        rw [← hlength, difference_eq_ok (Nat.le_add_right _ _), Nat.add_sub_cancel_left]
      have hnext := h above stack[depth.toNat] below hstack
      rw [hlength] at hnext
      simpa [hnegative, Nat.not_le.2 hinside, hlast, hposition, List.getElem?_eq_getElem hinside]
        using hnext
    · have houtside : stack.length ≤ depth.toNat := Nat.not_lt.1 hinside
      simp [hnegative, houtside]

theorem rearrange_pick (stack : Stack) :
    exec (rearrange .pick) stack.reverse = seen List.reverse (StackOperation.apply .pick stack) := by
  rcases stack with _ | ⟨index, _ | ⟨a, rest⟩⟩
  iterate 2 exact exec_require_bind_of_lt (by simp)
  refine (exec_require_bind_of_le (Nat.le_add_left 2 _)).trans ?_
  change _ = seen List.reverse
    (Stack.select (fun below _ element => Stack.push element below) (index :: a :: rest))
  refine exec_indexed_bind fun above element below hstack => ?_
  have hget : Checked.get (a :: rest).reverse below.length = .ok element := by
    rw [get_eq_ok_iff, hstack]
    simp
  rw [exec_bind_of_ok exec_get, exec_bind_of_ok (exec_lift_of_ok hget)]
  exact exec_push element _

/-- The selected element is removed before it is measured. -/
theorem rearrange_roll (stack : Stack) :
    exec (rearrange .roll) stack.reverse = seen List.reverse (StackOperation.apply .roll stack) := by
  rcases stack with _ | ⟨index, _ | ⟨a, rest⟩⟩
  iterate 2 exact exec_require_bind_of_lt (by simp)
  refine (exec_require_bind_of_le (Nat.le_add_left 2 _)).trans ?_
  change _ = seen List.reverse
    (Stack.select (fun below depth element => Stack.push element (below.eraseIdx depth)) (index :: a :: rest))
  refine exec_indexed_bind fun above element below hstack => ?_
  have hitems : (a :: rest).reverse = below.reverse ++ element :: above.reverse := by
    rw [hstack]
    simp
  have hremove : remove (a :: rest).reverse below.length = .ok (element, (above ++ below).reverse) := by
    rw [hitems, ← List.length_reverse, ← Nat.add_zero below.reverse.length, remove_append,
      List.reverse_append]
    rfl
  have herase : (a :: rest).eraseIdx above.length = above ++ below := by
    rw [hstack, List.eraseIdx_append_of_length_le (Nat.le_refl _), Nat.sub_self, List.eraseIdx_cons_zero]
  rw [exec_bind_of_ok exec_get, exec_bind_of_ok (exec_lift_of_ok hremove), exec_bind_of_ok (exec_set _),
    herase]
  exact exec_push element _

/-- Every rearrangement is the same by positions in a list whose last element is on top, and no
position lies outside of it. -/
theorem exec_rearrange (kind : StackOperation) (stack : Stack) :
    exec (rearrange kind) stack.reverse = seen List.reverse (kind.apply stack) := by
  cases kind with
  | drop2 => exact rearrange_drop2 stack
  | dup2 => exact rearrange_dup2 stack
  | dup3 => exact rearrange_dup3 stack
  | over2 => exact rearrange_over2 stack
  | rot2 => exact rearrange_rot2 stack
  | swap2 => exact rearrange_swap2 stack
  | ifDup => exact rearrange_ifDup stack
  | depth => exact rearrange_depth stack
  | drop => exact rearrange_drop stack
  | dup => exact rearrange_dup stack
  | nip => exact rearrange_nip stack
  | «over» => exact rearrange_over stack
  | pick => exact rearrange_pick stack
  | roll => exact rearrange_roll stack
  | rot => exact rearrange_rot stack
  | swap => exact rearrange_swap stack
  | tuck => exact rearrange_tuck stack
  | size => exact rearrange_size stack

end Items

end SpendCheck.Guarded
