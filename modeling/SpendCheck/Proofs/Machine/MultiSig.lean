import Mathlib.Tactic.Common
import SpendCheck.Proofs.Machine.Matching
import SpendCheck.Proofs.Machine.Step

namespace SpendCheck

theorem Number.decodeCount_of_decode {limit count : Nat} {outside : ScriptError} {element : Bytes}
    (h : Number.decode Number.maxSize element = .ok (count : Int)) (hlimit : count ≤ limit) :
    Number.decodeCount limit outside element = .ok count := by
  have hinside : ¬((count : Int) < 0 ∨ limit < count) := by omega
  simp only [decodeCount, h, Int.toNat_natCast, if_neg hinside]

/-- Taking apart finds the keys and signatures that the counts announce, and
leaves the rest of the stack. -/
theorem MultiSig.ofStack?_append {keys sigs : List Bytes} {sigCount dummy : Bytes} {base : Stack}
    (hcount : Number.decode Number.maxSize sigCount = .ok (sigs.length : Int))
    (hfewer : sigs.length ≤ keys.length) :
    MultiSig.ofStack? keys.length (keys ++ sigCount :: (sigs ++ dummy :: base)) =
      .ok ⟨keys, sigs, dummy, base⟩ := by
  simp only [ofStack?, List.drop_left, List.take_left, Number.decodeCount_of_decode hcount hfewer]

namespace Machine

/-- With the encodings of all signatures and keys in order, and the element that
serves no purpose accepted, settling replaces the arguments by whether the
signatures have keys in the same order. -/
theorem settleMultiSig_eq_done (context : Context) (args : MultiSig) (m : Machine)
    (hsigs : ∀ sig ∈ args.sigs, checkSignatureEncoding context.flags sig = .ok ())
    (hkeys : ∀ key ∈ args.keys, checkKeyEncoding context.flags key = .ok ())
    (hdummy : context.flags.has .nullDummy = true → args.dummy = []) :
    ∃ success calls,
      m.settleMultiSig context args =
        .done { m with stack := Number.ofBool success :: args.base, calls := m.calls ++ calls } ∧
      (success = true ↔ List.SublistForall₂
        (fun sig key => context.checker sig key ((m.scriptCode context).deletePushes args.sigs) = true)
        args.sigs args.keys) ∧
      calls.map Call.pubkey <+: args.keys := by
  obtain ⟨success, hverdict, hmatch⟩ := Context.scan_verdict context
    ((m.scriptCode context).deletePushes args.sigs) hsigs hkeys
  have haccepted : ¬(context.flags.has .nullDummy && !args.dummy.isEmpty) = true := by
    intro hbad
    obtain ⟨hnull, hfilled⟩ := Bool.and_eq_true_iff.1 hbad
    simp [hdummy hnull] at hfilled
  have hprefix := Context.scan_calls_prefix context ((m.scriptCode context).deletePushes args.sigs)
    args.sigs args.keys
  refine ⟨success, _, ?_, hmatch, hprefix⟩
  simp only [settleMultiSig, hverdict, if_neg haccepted]

/-- A multiple signature check decides whether the signatures belong to keys in
the same order. On a stack with the arguments on top, keys and signatures both
listed from the top, it succeeds, replaces exactly these elements by one truth
value, and compares every key at most once, from the first one on. -/
theorem checkMultiSig_decides_matching (context : Context) (m : Machine) {keys sigs : List Bytes}
    {keyCount sigCount dummy : Bytes} {base : Stack}
    (hstack : m.stack = keyCount :: (keys ++ sigCount :: (sigs ++ dummy :: base)))
    (hkeyCount : Number.decode Number.maxSize keyCount = .ok (keys.length : Int))
    (hsigCount : Number.decode Number.maxSize sigCount = .ok (sigs.length : Int))
    (hmost : keys.length ≤ maxKeys) (hfewer : sigs.length ≤ keys.length)
    (hcount : m.opCount + keys.length ≤ maxOperations)
    (hsigs : ∀ sig ∈ sigs, checkSignatureEncoding context.flags sig = .ok ())
    (hkeys : ∀ key ∈ keys, checkKeyEncoding context.flags key = .ok ())
    (hdummy : context.flags.has .nullDummy = true → dummy = []) :
    ∃ success calls,
      m.checkMultiSig context = .done { m with
        stack := Number.ofBool success :: base
        opCount := m.opCount + keys.length
        calls := m.calls ++ calls } ∧
      (success = true ↔ ∃ j : Fin sigs.length → Fin keys.length, StrictMono j ∧
        ∀ i, context.checker sigs[i] keys[j i] ((m.scriptCode context).deletePushes sigs) = true) ∧
      calls.map Call.pubkey <+: keys ∧ calls.length ≤ keys.length := by
  obtain ⟨success, calls, hsettled, hmatch, hprefix⟩ := settleMultiSig_eq_done context
    ⟨keys, sigs, dummy, base⟩ { m with opCount := m.opCount + keys.length } hsigs hkeys hdummy
  refine ⟨success, calls, ?_, ?_, hprefix, ?_⟩
  · rw [checkMultiSig, hstack]
    simp only [Number.decodeCount_of_decode hkeyCount hmost, countOperations_of_le hcount,
      Outcome.done_andThen, MultiSig.ofStack?_append hsigCount hfewer]
    exact hsettled
  · rw [hmatch]
    exact sublistForall₂_iff_exists_strictMono
  · simpa using hprefix.length_le

/-- Two of three keys, where the first key from the top has no signature and is
passed over. -/
theorem checkMultiSig_two_of_three :
    ∃ success calls,
      Machine.checkMultiSig ⟨⟨Flag.nullDummy.mask⟩, .ofPairs [([7], [2]), ([8], [3])], [0xae]⟩
        { stack := [[3], [1], [2], [3], [2, 0], [7], [8], [], [9]] } = .done
          { stack := Number.ofBool success :: [[9]], opCount := 3, calls := calls } ∧
      success = true ∧ calls.map Call.pubkey <+: [[1], [2], [3]] := by
  obtain ⟨success, calls, hdone, hmatch, hprefix, _⟩ := @checkMultiSig_decides_matching
    ⟨⟨Flag.nullDummy.mask⟩, .ofPairs [([7], [2]), ([8], [3])], [0xae]⟩
    { stack := [[3], [1], [2], [3], [2, 0], [7], [8], [], [9]] }
    [[1], [2], [3]] [[7], [8]] [3] [2, 0] [] [[9]] rfl (by decide) (by decide) (by decide)
    (by decide) (by decide) (by decide) (by decide) (by decide)
  exact ⟨success, calls, hdone, hmatch.2 ⟨Fin.succ, Fin.strictMono_succ, by decide⟩, hprefix⟩

end Machine

end SpendCheck
