import SpendCheck.Proofs.Guarded.Checking

namespace SpendCheck

theorem Number.le_of_decodeCount {limit count : Nat} {outside : ScriptError} {element : Bytes}
    (h : decodeCount limit outside element = .ok count) : count ≤ limit := by
  unfold decodeCount at h
  split at h
  · cases h
  · split at h
    · cases h
    · next hinside =>
      cases h
      omega

namespace Guarded

open Checked Guarded.Action Guarded.Items

/-! The arguments of a multiple signature check are found by depths that are computed from
the two counts. -/

/-- Reads a count between zero and a limit, with a reason of its own for a number outside. -/
def count (limit : Nat) (outside : ScriptError) (element : Bytes) : Action Machine Nat := do
  let found ← operand element
  if found < 0 ∨ limit < found.toNat then throw outside
  return found.toNat

/-- Removes the pushes of the signatures from a depth on. -/
def deletePushes (depth : Nat) : (remaining : Nat) → Script → Action Items Script
  | 0, code => return code
  | remaining + 1, code => do
    let sig ← top depth
    let code ← deleteAll (Script.pushData sig) code
    deletePushes (depth + 1) remaining code

/-- How many signatures are left after a check. -/
def pending (valid : Bool) (sigs : Nat) : Checked Nat :=
  if valid then difference sigs 1 else .ok sigs

/-- Matches signatures with keys in order, both given by the depth of the next one and how
many there are. -/
def scan (context : Context) (code : Script) :
    (turns keyDepth keys sigDepth sigs : Nat) → Action Machine Bool
  | 0, _, _, _, _ => (Except.error Fault.endless : Checked Bool)
  | turns + 1, keyDepth, keys, sigDepth, sigs => do
    if sigs = 0 then return true
    let sig ← onItems (top sigDepth)
    let pubkey ← onItems (top keyDepth)
    let valid ← ask context code sig pubkey
    let sigs ← pending valid sigs
    let keys ← difference keys 1
    if keys < sigs then return false
    scan context code turns (keyDepth + 1) keys (if valid then sigDepth + 1 else sigDepth) sigs

/-- Throws several elements away. -/
def dropMany : Nat → Action Items Unit
  | 0 => return
  | remaining + 1 => do
    drop
    dropMany remaining

/-- Replaces the arguments by the answer. The last of them may have to be empty. -/
def replaceArguments (flags : Flags) (arguments : Nat) (success : Bool) : Action Items Unit := do
  dropMany arguments
  let dummy ← top 1
  if flags.has .nullDummy && !dummy.isEmpty then throw .sigNullDummy
  drop
  pushBool success

/-- Checks signatures against a number of keys that is known. -/
def checkCounted (context : Context) (code : Script) (keys : Nat) : Action Machine Unit := do
  let sigs ← count keys .sigCount (← onItems (top (keys + 2)))
  onItems (require (keys + sigs + 3))
  let code ← onItems (deletePushes (keys + 3) sigs code)
  let success ← scan context code (keys + 1) 2 keys (keys + 3) sigs
  onItems (replaceArguments context.flags (keys + sigs + 2) success)

/-- Replaces counted keys and counted signatures by whether the checker accepts the
signatures for keys in the same order. -/
def checkMultiSig (context : Context) (code : Script) : Action Machine Unit := do
  let keys ← count maxKeys .pubkeyCount (← onItems (top 1))
  operation (Machine.countOperations keys)
  checkCounted context code keys

variable {context : SpendCheck.Context} {m : Machine} {stack : Stack}

theorem exec_count (limit : Nat) (outside : ScriptError) (element : Bytes) (m : Machine) :
    exec (count limit outside element) m = .ok (Number.decodeCount limit outside element, m) := by
  rw [count, exec_bind, exec_operand, Number.decodeCount]
  cases Number.decode Number.maxSize element with
  | error e => rfl
  | ok found =>
    rw [ok_bind, resume_ok]
    dsimp only
    by_cases houtside : found < 0 ∨ limit < found.toNat
    · rw [if_pos houtside, if_pos houtside]
      rfl
    · rw [if_neg houtside, if_neg houtside]
      rfl

theorem getElem?_of_drop {depth : Nat} {element : Bytes} {below : Stack}
    (h : stack.drop depth = element :: below) :
    stack[depth]? = some element ∧ stack.drop (depth + 1) = below := by
  constructor
  · rw [← List.head?_drop, h, List.head?_cons]
  · rw [← List.drop_drop, h, List.drop_one, List.tail_cons]

theorem take_of_drop {depth : Nat} {element : Bytes} {below : Stack}
    (h : stack.drop depth = element :: below) :
    stack.take depth ++ element :: below = stack ∧ (stack.take depth).length = depth := by
  have hlength := congrArg List.length h
  rw [List.length_drop, List.length_cons] at hlength
  constructor
  · rw [← h, List.take_append_drop]
  · exact List.length_take_of_le (by omega)

/-- The signatures are read from the topmost one down, where they are, and cut out of the script
code in this order. -/
theorem exec_deletePushes {depth : Nat} {sigs below : List Bytes} (h : stack.drop depth = sigs ++ below)
    (code : Script) :
    exec (deletePushes (depth + 1) sigs.length code) stack.reverse =
      .ok (.ok (code.deletePushes sigs), stack.reverse) := by
  induction sigs generalizing depth code with
  | nil => rfl
  | cons sig sigs ih =>
    obtain ⟨hsig, hrest⟩ := getElem?_of_drop h
    rw [List.length_cons, deletePushes, exec_bind_of_ok (exec_top_of_getElem? hsig),
      exec_bind_of_ok (exec_lift_of_ok (deletePush_eq_ok sig code)), ih hrest]
    rfl

/-- The cursors stay inside as long as there are no more signatures than keys left, which
is asked after every check. -/
theorem exec_scan (code : Script) {turns keyDepth sigDepth : Nat}
    {keys sigs belowKeys belowSigs : List Bytes} (hkeys : m.stack.drop keyDepth = keys ++ belowKeys)
    (hsigs : m.stack.drop sigDepth = sigs ++ belowSigs) (hle : sigs.length ≤ keys.length)
    (hturns : keys.length < turns) :
    exec (scan context.guarded code turns (keyDepth + 1) keys.length (sigDepth + 1) sigs.length) m.upended =
      .ok ((context.scan code sigs keys).verdict,
        { m with calls := m.calls ++ (context.scan code sigs keys).calls }.upended) := by
  induction turns generalizing m keyDepth sigDepth keys sigs with
  | zero => omega
  | succ turns ih =>
    cases sigs with
    | nil => simp [scan, SpendCheck.Context.scan]
    | cons sig sigs =>
      cases keys with
      | nil => cases hle
      | cons key keys =>
        obtain ⟨hsig, hsigs'⟩ := getElem?_of_drop hsigs
        obtain ⟨hkey, hkeys'⟩ := getElem?_of_drop hkeys
        have hne : (sig :: sigs).length ≠ 0 := Nat.succ_ne_zero _
        rw [scan, if_neg hne, exec_bind_of_ok (exec_onItems_top_of_getElem? hsig),
          exec_bind_of_ok (exec_onItems_top_of_getElem? hkey), SpendCheck.Context.scan]
        cases hask : context.ask code sig key with
        | error e =>
          rw [exec_bind, exec_ask_of_error hask]
          simp
        | ok call =>
          obtain ⟨left, leftDepth, hleft, hpending, hdepth, hdrop⟩ : ∃ left leftDepth,
              (if call.valid then sigs else sig :: sigs) = left ∧
                pending call.valid (sig :: sigs).length = .ok left.length ∧
                (if call.valid then sigDepth + 1 + 1 else sigDepth + 1) = leftDepth + 1 ∧
                m.stack.drop leftDepth = left ++ belowSigs := by
            cases call.valid with
            | true => exact ⟨sigs, sigDepth + 1, rfl, rfl, rfl, hsigs'⟩
            | false => exact ⟨sig :: sigs, sigDepth, rfl, rfl, rfl, hsigs⟩
          have hkeysLeft : difference (key :: keys).length 1 = .ok keys.length := rfl
          rw [exec_bind_of_ok (exec_ask_of_ok hask), exec_bind_of_ok (exec_lift_of_ok hpending),
            exec_bind_of_ok (exec_lift_of_ok hkeysLeft), hdepth]
          dsimp only
          rw [hleft]
          by_cases hfew : keys.length < left.length
          · rw [if_pos hfew, if_pos hfew, exec_pure]
          · rw [if_neg hfew, if_neg hfew, ih (m := { m with calls := m.calls ++ [call] }) hkeys' hdrop
              (Nat.not_lt.1 hfew) (Nat.lt_of_succ_lt_succ hturns)]
            simp

/-- Taking away as many elements as were read leaves what was below them. -/
theorem exec_dropMany (above below : Stack) :
    exec (dropMany above.length) (above ++ below).reverse = .ok (.ok (), below.reverse) := by
  induction above with
  | nil => rfl
  | cons element above ih =>
    rw [List.length_cons, dropMany, List.cons_append, exec_bind_of_ok exec_drop_cons, ih]

/-- Where the last argument has to be empty and is not, it stays. -/
theorem exec_replaceArguments (flags : Flags) (success : Bool) (above : Stack) (dummy : Bytes)
    (base : Stack) :
    exec (replaceArguments flags above.length success) (above ++ dummy :: base).reverse =
      if flags.has .nullDummy && !dummy.isEmpty then .ok (.error .sigNullDummy, (dummy :: base).reverse)
      else .ok (.ok (), (Number.ofBool success :: base).reverse) := by
  rw [replaceArguments, exec_bind_of_ok (exec_dropMany above _), exec_bind_of_ok (exec_top_of_getElem? rfl)]
  split
  · rfl
  · rw [exec_bind_of_ok exec_drop_cons, exec_pushBool]

/-- The arguments once they have been taken apart: the depths point at them. -/
theorem exec_checkArguments (context : SpendCheck.Context) {top : Bytes} {keys sigs : List Bytes}
    {sigCount dummy : Bytes} {base : Stack}
    (hstack : m.stack = top :: (keys ++ sigCount :: (sigs ++ dummy :: base)))
    (hle : sigs.length ≤ keys.length) :
    exec (do
        onItems (require (keys.length + sigs.length + 3))
        let code ← onItems (deletePushes (keys.length + 3) sigs.length (m.scriptCode context))
        let success ← scan context.guarded code (keys.length + 1) 2 keys.length (keys.length + 3)
          sigs.length
        onItems (replaceArguments context.guarded.flags (keys.length + sigs.length + 2) success))
        m.upended =
      seen Machine.upended (m.settleMultiSig context ⟨keys, sigs, dummy, base⟩) := by
  have hkeys : m.stack.drop 1 = keys ++ sigCount :: (sigs ++ dummy :: base) := by
    rw [hstack]
    rfl
  have hsigs : m.stack.drop (keys.length + 2) = sigs ++ dummy :: base := by
    rw [hstack]
    simp
  have hrequire : exec (require (keys.length + sigs.length + 3)) m.stack.reverse =
      .ok (.ok (), m.stack.reverse) :=
    exec_require_of_le (by rw [hstack]; simp; omega)
  rw [exec_bind_of_ok (exec_onItems_of_ok hrequire),
    exec_bind_of_ok (exec_onItems_of_ok (exec_deletePushes hsigs _)), Machine.settleMultiSig]
  generalize (m.scriptCode context).deletePushes sigs = code
  rw [exec_bind, exec_scan code hkeys hsigs hle (Nat.lt_succ_self _), ok_bind]
  dsimp only
  cases (context.scan code sigs keys).verdict with
  | error e => rfl
  | ok success =>
    have hitems : m.stack = (top :: (keys ++ sigCount :: sigs)) ++ dummy :: base := by
      rw [hstack]
      simp
    have hcount : keys.length + sigs.length + 2 = (top :: (keys ++ sigCount :: sigs)).length := by
      simp
      omega
    have hreplace := exec_replaceArguments context.flags success (top :: (keys ++ sigCount :: sigs)) dummy
      base
    rw [← hitems, ← hcount] at hreplace
    rw [resume_ok]
    dsimp only
    generalize (context.scan code sigs keys).calls = calls
    by_cases hdummy : (context.flags.has .nullDummy && !dummy.isEmpty) = true
    · rw [if_pos hdummy] at hreplace ⊢
      exact exec_onItems_of_ok (m := { m with calls := m.calls ++ calls }) hreplace
    · rw [if_neg hdummy] at hreplace ⊢
      exact exec_onItems_of_ok (m := { m with calls := m.calls ++ calls }) hreplace

/-- With the number of keys known, all depths follow from the two counts, which are compared
with the size of the stack before the elements are read. So no cursor leaves the stack. -/
theorem exec_checkCounted {element : Bytes} {below : Stack}
    (hstack : m.stack = element :: below) (keys : Nat) :
    exec (checkCounted context.guarded (m.scriptCode context) keys) m.upended =
      seen Machine.upended (match MultiSig.ofStack? keys below with
        | .error e => .failed e m
        | .ok args => m.settleMultiSig context args) := by
  rw [checkCounted, MultiSig.ofStack?]
  cases hdrop : below.drop keys with
  | nil =>
    have hnone : Stack.top (keys + 2) m.stack = .error .invalidStackOperation := by
      have hshort : below[keys]? = none := List.getElem?_eq_none (List.drop_eq_nil_iff.1 hdrop)
      rw [hstack, Stack.top, Nat.add_succ_sub_one, List.getElem?_cons_succ, hshort]
    rw [exec_bind, exec_onItems_top, hnone]
    rfl
  | cons sigCount rest =>
    have htop : m.stack[keys + 1]? = some sigCount := by
      rw [hstack, List.getElem?_cons_succ]
      exact (getElem?_of_drop hdrop).1
    obtain ⟨hbelow, hkeys⟩ := take_of_drop hdrop
    rw [exec_bind_of_ok (exec_onItems_top_of_getElem? htop), exec_bind, exec_count, ok_bind]
    dsimp only
    cases hdecode : Number.decodeCount keys .sigCount sigCount with
    | error e => rfl
    | ok sigs =>
      rw [resume_ok]
      dsimp only
      cases hrest : rest.drop sigs with
      | nil =>
        have hshort : m.stack.length < keys + sigs + 3 := by
          have hlength := List.drop_eq_nil_iff.1 hrest
          rw [hstack, ← hbelow]
          simp only [List.length_cons, List.length_append, hkeys]
          omega
        rw [exec_bind, exec_onItems_of_ok (exec_require_of_lt hshort)]
        rfl
      | cons dummy base =>
        obtain ⟨hargs, hsigs⟩ := take_of_drop hrest
        have hall : m.stack =
            element :: (below.take keys ++ sigCount :: (rest.take sigs ++ dummy :: base)) := by
          rw [hargs, hbelow, hstack]
        have hle := Number.le_of_decodeCount hdecode
        have hexec := exec_checkArguments context hall (by rwa [hkeys, hsigs])
        rw [hkeys, hsigs] at hexec
        exact hexec

/-- The keys are counted as operations before the number of signatures is read. -/
theorem exec_checkMultiSig (m : Machine) :
    exec (checkMultiSig context.guarded (m.scriptCode context)) m.upended =
      seen Machine.upended (m.checkMultiSig context) := by
  rw [checkMultiSig, Machine.checkMultiSig]
  cases hstack : m.stack with
  | nil =>
    rw [exec_bind, exec_onItems_top, hstack]
    rfl
  | cons element below =>
    have htop : m.stack[0]? = some element := by
      rw [hstack]
      rfl
    rw [exec_bind_of_ok (exec_onItems_top_of_getElem? htop), exec_bind, exec_count, ok_bind]
    dsimp only
    cases Number.decodeCount maxKeys .pubkeyCount element with
    | error e => rfl
    | ok keys =>
      rw [resume_ok]
      refine exec_bind_of_seen (exec_operation (countOperations_upended keys m)) fun t ht => ?_
      obtain ⟨-, rfl⟩ := Machine.countOperations_eq_done_iff.1 ht
      exact exec_checkCounted (m := { m with opCount := m.opCount + keys }) hstack keys

end Guarded

end SpendCheck
