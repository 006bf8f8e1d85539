import SpendCheck.Proofs.Guarded.Script
import SpendCheck.Proofs.Script.Tiling

namespace SpendCheck

namespace Guarded

open Checked Script

/-- An iterator over the instructions of a script. -/
structure Iterator where
  script : Script
  /-- Where the last instruction that it yielded ends. -/
  cursor : Nat := 0
  /-- It came to a push that runs past the end. -/
  failed : Bool := false

namespace Iterator

/-- What an iterator yields, if it yields anything more, and how that leaves it. -/
def next (iterator : Iterator) : Checked (Option (Except TruncatedPush Instruction) × Iterator) := do
  if iterator.failed then return (none, iterator)
  match ← Guarded.next iterator.script iterator.cursor with
  | .done => return (none, iterator)
  | .truncated => return (some (.error ⟨iterator.cursor⟩), { iterator with failed := true })
  | .instruction found stop => return (some (.ok found), { iterator with cursor := stop })

/-- Goes on until nothing more is yielded, and notes where the cursor is each time. -/
def collect : (turns : Nat) → Iterator → Checked (List Yield × Iterator)
  | 0, _ => .error .endless
  | turns + 1, iterator => do
    match ← iterator.next with
    | (none, last) => return ([], last)
    | (some item, later) =>
      let (others, last) ← collect turns later
      return ((item, later.cursor) :: others, last)

variable {script rest : Script} {cursor turns : Nat} {found : Instruction}

theorem next_of_failed (script : Script) (cursor : Nat) :
    next ⟨script, cursor, true⟩ = .ok (none, ⟨script, cursor, true⟩) := rfl

theorem next_of_length_le (h : script.length ≤ cursor) :
    next ⟨script, cursor, false⟩ = .ok (none, ⟨script, cursor, false⟩) := by
  simp only [next, Guarded.next_of_length_le script h, ok_bind]
  rfl

theorem next_of_read?_eq_none (hleft : cursor < script.length)
    (h : Instruction.read? (script.drop cursor) = none) :
    next ⟨script, cursor, false⟩ = .ok (some (.error ⟨cursor⟩), ⟨script, cursor, true⟩) := by
  simp only [next, Guarded.next_of_read?_eq_none script hleft h, ok_bind]
  rfl

theorem next_of_read? (h : Instruction.read? (script.drop cursor) = some (found, rest)) :
    next ⟨script, cursor, false⟩ = .ok (some (.ok found), ⟨script, cursor + found.size, false⟩) := by
  simp only [next, Guarded.next_of_read? script cursor h, ok_bind]
  rfl

/-- Every turn moves the cursor or comes to the push that runs past the end, after which
one more turn yields nothing. -/
theorem collect_eq_ok (hcursor : cursor ≤ script.length) (hturns : script.length - cursor < turns) :
    ∃ last : Iterator, last.next = .ok (none, last) ∧
      collect turns ⟨script, cursor, false⟩ =
        .ok ((yields (script.drop cursor)).map (Yield.shift cursor), last) := by
  induction turns generalizing cursor with
  | zero => omega
  | succ turns ih =>
    by_cases hend : script.length ≤ cursor
    · refine ⟨_, next_of_length_le hend, ?_⟩
      rw [collect, next_of_length_le hend, ok_bind, List.drop_eq_nil_of_le hend, yields_nil]
      rfl
    have hleft : cursor < script.length := Nat.not_le.1 hend
    cases hread : Instruction.read? (script.drop cursor) with
    | none =>
      have hne : script.drop cursor ≠ [] := fun hnil => hend (List.drop_eq_nil_iff.1 hnil)
      obtain ⟨turns, rfl⟩ := Nat.exists_eq_add_one.2 (show 0 < turns by omega)
      refine ⟨_, next_of_failed script cursor, ?_⟩
      rw [collect, next_of_read?_eq_none hleft hread, ok_bind, yields_of_read?_eq_none hne hread]
      simp only [collect, next_of_failed, ok_bind]
      rfl
    | some read =>
      obtain ⟨found, rest⟩ := read
      obtain ⟨hstop, -, hrest⟩ := slice_of_read? hread
      have hpos := found.size_pos
      obtain ⟨last, hlast, hcollect⟩ := ih hstop (by omega)
      refine ⟨last, hlast, ?_⟩
      rw [collect, next_of_read? hread, ok_bind, yields_of_read?_eq_some hread, List.map_cons, List.map_map,
        Yield.shift_comp_shift, ← hrest]
      simp only [hcollect, ok_bind]
      rfl

end Iterator

end Guarded

/-- Iteration tiles a script. It ends within one turn more than there are bytes, having
yielded the instructions and then at most one push that runs past the end, and yields
nothing afterwards. The offsets where the instructions end cut the script into the
instructions, each its opcode, length bytes and payload, and a rest that is empty or begins
with the push. Behind a script that is read to its end a second one yields the same as by
itself, so much further on, and behind one that only pushes it decides whether both do. -/
theorem iteration_tiles_script :
    (∀ script : Script,
      (∃ last : Guarded.Iterator, last.next = .ok (none, last) ∧
        Guarded.Iterator.collect (script.length + 1) { script := script } = .ok (script.yields, last)) ∧
      script.yields =
        (script.instructions.zip (Script.ends 0 script.instructions)).map (fun read => (.ok read.1, read.2)) ++
          script.truncatedPush?.toList.map (fun push => (.error push, push.position)) ∧
      script.Tiled script.instructions (Script.ends 0 script.instructions) script.truncatedPush?) ∧
    (∀ first second : Script, first.truncatedPush? = none →
      (first ++ second).yields = first.yields ++ second.yields.map (Script.Yield.shift first.length)) ∧
    ∀ first second : Script, first.isPushOnly = true →
      (first ++ second).isPushOnly = second.isPushOnly := by
  refine ⟨fun script => ⟨?_, rfl, script.tiled⟩, fun first second hwhole => ?_,
    fun first second hpushOnly => Script.isPushOnly_append hpushOnly second⟩
  · obtain ⟨last, hlast, hcollect⟩ :=
      Guarded.Iterator.collect_eq_ok (Nat.zero_le script.length) (Nat.lt_succ_self script.length)
    refine ⟨last, hlast, hcollect.trans ?_⟩
    rw [List.drop_zero, Script.Yield.shift_zero, List.map_id]
  · exact Script.yields_append (Script.truncatedPush?_eq_none_iff.1 hwhole) second

/-- A push without its length byte behind a push, a number, and nothing else. -/
theorem push_without_length_yielded_last :
    Script.yields ([0x01, 0x07] ++ [0x51, 0x4c]) =
      [(.ok (.push 0x01 [0x07]), 2), (.ok (.op 0x51), 3), (.error ⟨3⟩, 3)] ∧
    (∃ last, Guarded.Iterator.collect 5 { script := [0x01, 0x07, 0x51, 0x4c] } =
      .ok (Script.yields ([0x01, 0x07] ++ [0x51, 0x4c]), last)) ∧
    Script.isPushOnly ([0x01, 0x07] ++ [0x51, 0x4c]) = false ∧
    Script.isPushOnly ([0x01, 0x07] ++ [0x51]) = true := by
  obtain ⟨htiled, happend, hpushOnly⟩ := iteration_tiles_script
  refine ⟨?_, ?_, ?_, ?_⟩
  · rw [happend [0x01, 0x07] [0x51, 0x4c] (by decide +kernel)]
    decide +kernel
  · obtain ⟨⟨last, -, hcollect⟩, -, -⟩ := htiled [0x01, 0x07, 0x51, 0x4c]
    exact ⟨last, hcollect⟩
  · rw [hpushOnly [0x01, 0x07] [0x51, 0x4c] (by decide +kernel)]
    decide +kernel
  · rw [hpushOnly [0x01, 0x07] [0x51] (by decide +kernel)]
    decide +kernel

end SpendCheck
