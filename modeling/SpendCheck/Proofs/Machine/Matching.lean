import Mathlib.Data.List.NodupEquivFin
import SpendCheck.Machine.CheckMultiSig

namespace SpendCheck

section Assignment

variable {α β : Type} {R : α → β → Prop}

/-- Related items in order are the same as a strictly increasing assignment of
positions. -/
theorem sublistForall₂_iff_exists_strictMono {as : List α} {bs : List β} :
    List.SublistForall₂ R as bs ↔
      ∃ j : Fin as.length → Fin bs.length, StrictMono j ∧ ∀ i, R as[i] bs[j i] := by
  rw [List.sublistForall₂_iff]
  constructor
  · rintro ⟨chosen, hrelated, hsublist⟩
    obtain ⟨f, hf⟩ := List.sublist_iff_exists_fin_orderEmbedding_get_eq.1 hsublist
    have hlength := hrelated.length_eq
    refine ⟨fun i => f (i.cast hlength), fun i k hlt => f.strictMono hlt, fun i => ?_⟩
    have hget := hrelated.get i.isLt (hlength ▸ i.isLt)
    have hchosen : chosen.get (i.cast hlength) = bs[f (i.cast hlength)] := hf (i.cast hlength)
    rw [← hchosen]
    exact hget
  · rintro ⟨j, hmono, hrelated⟩
    refine ⟨List.ofFn fun i => bs[j i], ?_, ?_⟩
    · rw [List.forall₂_iff_get]
      refine ⟨by simp, fun i hi hi' => ?_⟩
      simpa using hrelated ⟨i, hi⟩
    · rw [List.sublist_iff_exists_fin_orderEmbedding_get_eq]
      refine ⟨OrderEmbedding.ofStrictMono (fun i => j (i.cast (by simp))) fun i k hlt => hmono hlt, ?_⟩
      exact fun i => List.get_ofFn _ i

theorem sublistForall₂_length_le {as : List α} {bs : List β} (h : List.SublistForall₂ R as bs) :
    as.length ≤ bs.length := by
  obtain ⟨chosen, hrelated, hsublist⟩ := List.sublistForall₂_iff.1 h
  rw [hrelated.length_eq]
  exact hsublist.length_le

theorem sublistForall₂_of_cons {a : α} {as : List α} {bs : List β}
    (h : List.SublistForall₂ R (a :: as) bs) : List.SublistForall₂ R as bs := by
  induction bs with
  | nil => cases h
  | cons b bs ih =>
    cases h with
    | cons _ hrest => exact hrest.cons_right
    | cons_right hrest => exact (ih hrest).cons_right

/-- If the first items are related, an assignment may as well begin with them. -/
theorem sublistForall₂_cons_cons_of_related {a : α} {b : β} {as : List α} {bs : List β}
    (hrelated : R a b) : List.SublistForall₂ R (a :: as) (b :: bs) ↔ List.SublistForall₂ R as bs := by
  constructor
  · intro h
    cases h with
    | cons _ hrest => exact hrest
    | cons_right hrest => exact sublistForall₂_of_cons hrest
  · exact fun h => h.cons hrelated

/-- A head that is not related to the first element on the other side is matched further on. -/
theorem sublistForall₂_cons_cons_of_not_related {a : α} {b : β} {as : List α} {bs : List β}
    (hother : ¬R a b) :
    List.SublistForall₂ R (a :: as) (b :: bs) ↔ List.SublistForall₂ R (a :: as) bs := by
  constructor
  · intro h
    cases h with
    | cons hrelated _ => exact absurd hrelated hother
    | cons_right hrest => exact hrest
  · exact fun h => h.cons_right

end Assignment

namespace Context

variable (context : Context) (code : Script)

/-- A scan asks about every key at most once, from the first one on. -/
theorem scan_calls_prefix (sigs keys : List Bytes) :
    (context.scan code sigs keys).calls.map Call.pubkey <+: keys := by
  induction keys generalizing sigs with
  | nil => cases sigs <;> simp [scan]
  | cons key keys ih =>
    cases sigs with
    | nil => simp [scan]
    | cons sig sigs =>
      cases hask : context.ask code sig key with
      | error e => simp [scan, hask]
      | ok call =>
        have hkey : call.pubkey = key := by
          obtain ⟨_, _, rfl⟩ := ask_eq_ok_iff.1 hask
          rfl
        simp only [scan, hask]
        generalize (if call.valid = true then sigs else sig :: sigs) = pending
        by_cases hfew : keys.length < pending.length
        · simp [if_pos hfew, hkey]
        · simpa [if_neg hfew, hkey] using ih pending

/-- Where no encoding is faulty the scan finds a key for every signature exactly
if the keys can be assigned in order: taking the first key that a signature has
leaves the most keys to the later ones. -/
theorem scan_verdict {sigs keys : List Bytes}
    (hsigs : ∀ sig ∈ sigs, checkSignatureEncoding context.flags sig = .ok ())
    (hkeys : ∀ key ∈ keys, checkKeyEncoding context.flags key = .ok ()) :
    ∃ success, (context.scan code sigs keys).verdict = .ok success ∧
      (success = true ↔
        List.SublistForall₂ (fun sig key => context.checker sig key code = true) sigs keys) := by
  induction keys generalizing sigs with
  | nil =>
    cases sigs with
    | nil => exact ⟨true, rfl, by simp [List.SublistForall₂.nil]⟩
    | cons sig sigs =>
      refine ⟨false, rfl, ?_⟩
      constructor
      · intro h
        cases h
      · intro hmatch
        cases hmatch
  | cons key keys ih =>
    cases sigs with
    | nil => exact ⟨true, rfl, by simp [List.SublistForall₂.nil]⟩
    | cons sig sigs =>
      have hask : context.ask code sig key = .ok ⟨sig, key, code, context.checker sig key code⟩ :=
        ask_eq_ok_iff.2 ⟨hsigs sig (by simp), hkeys key (by simp), rfl⟩
      -- What is left to match once the first key has been tried.
      obtain ⟨pending, hpending, hleft⟩ : ∃ pending,
          (if context.checker sig key code = true then sigs else sig :: sigs) = pending ∧
          (List.SublistForall₂ (fun sig key => context.checker sig key code = true)
            (sig :: sigs) (key :: keys) ↔
            List.SublistForall₂ (fun sig key => context.checker sig key code = true)
              pending keys) := by
        by_cases hvalid : context.checker sig key code = true
        · exact ⟨sigs, if_pos hvalid, sublistForall₂_cons_cons_of_related hvalid⟩
        · exact ⟨sig :: sigs, if_neg hvalid, sublistForall₂_cons_cons_of_not_related hvalid⟩
      have hsubset : ∀ other ∈ pending, other ∈ sig :: sigs := by
        intro other hother
        rw [← hpending] at hother
        split at hother
        · exact List.mem_cons_of_mem _ hother
        · exact hother
      simp only [scan, hask, hpending, hleft]
      by_cases hfew : keys.length < pending.length
      · refine ⟨false, by rw [if_pos hfew], ?_⟩
        constructor
        · intro h
          cases h
        · intro hmatch
          exact absurd (sublistForall₂_length_le hmatch) (Nat.not_le.2 hfew)
      · rw [if_neg hfew]
        exact ih (fun other hother => hsigs other (hsubset other hother))
          (fun other hother => hkeys other (List.mem_cons_of_mem _ hother))

end Context

end SpendCheck
