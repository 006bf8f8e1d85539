import SpendCheck.Proofs.Policy.Bits
import SpendCheck.Proofs.Policy.Subset

namespace SpendCheck

namespace Flag

theorem mem_all (flag : Flag) : flag ∈ all := by
  cases flag <;> decide

/-- Each bit that a set may have is the bit of a flag. -/
theorem exists_position_eq {i : Nat} (h : Flags.standardMask.toBitVec.getLsbD i = true) :
    ∃ flag, position flag = i := by
  have hall : ∀ i < 32, Flags.standardMask.toBitVec.getLsbD i = true → i ∈ all.map position := by
    decide
  obtain ⟨flag, -, hposition⟩ := List.mem_map.1 (hall i (BitVec.lt_of_getLsbD h) h)
  exact ⟨flag, hposition⟩

theorem nodup_masks : (all.map mask).Nodup := by
  decide

end Flag

namespace Flags

variable {flags F G : Flags} {flag : Flag} {i : Nat}

theorem subset_iff :
    F ⊆ G ↔ ∀ i, F.bits.toBitVec.getLsbD i = true → G.bits.toBitVec.getLsbD i = true := by
  constructor
  · intro h i hF
    rw [← and_eq_of_subset h, UInt32.toBitVec_and, BitVec.getLsbD_and, Bool.and_eq_true] at hF
    exact hF.1
  · intro h
    have hand : G.bits &&& F.bits = F.bits := by
      apply UInt32.toBitVec_inj.1
      apply BitVec.eq_of_getLsbD_eq
      intro i _
      rw [UInt32.toBitVec_and, BitVec.getLsbD_and, Bool.and_eq_right_iff_imp]
      exact h i
    exact beq_iff_eq.2 hand

/-- There are no bits outside of a mask if every bit is set in it. -/
theorem and_not_eq_zero_iff {bits mask : UInt32} : bits &&& ~~~mask = 0 ↔
    ∀ i, bits.toBitVec.getLsbD i = true → mask.toBitVec.getLsbD i = true := by
  rw [← UInt32.toBitVec_inj]
  constructor
  · intro h i hbit
    have hi := BitVec.lt_of_getLsbD hbit
    have hzero := congrArg (fun bits => bits.getLsbD i) h
    simpa [hi, hbit] using hzero
  · intro h
    apply BitVec.eq_of_getLsbD_eq
    intro i hi
    simpa [hi] using h i

/-- The sets that are read from their own bits are the ones without a foreign bit. -/
theorem ofBits?_bits_eq_some_iff : ofBits? flags.bits = some flags ↔ flags ⊆ standard := by
  have hforeign : flags.bits &&& ~~~standardMask = 0 ↔ flags ⊆ standard :=
    and_not_eq_zero_iff.trans subset_iff.symm
  by_cases hzero : flags.bits &&& ~~~standardMask = 0
  · rw [ofBits?, if_pos hzero]
    exact iff_of_true rfl (hforeign.1 hzero)
  · rw [ofBits?, if_neg hzero]
    exact iff_of_false (fun h => nomatch h) (mt hforeign.2 hzero)

/-- No number is read as a set with a bit that is not a flag. -/
theorem subset_standard_of_ofBits? {bits : UInt32} (h : ofBits? bits = some flags) :
    flags ⊆ standard := by
  have hbits : flags.bits = bits := by
    rw [ofBits?] at h
    split at h
    · exact (Option.some.inj h) ▸ rfl
    · cases h
  rw [← hbits] at h
  exact ofBits?_bits_eq_some_iff.1 h

theorem none_subset : none ⊆ F :=
  subset_iff.2 fun i h => by simp [none] at h

theorem insert_subset_standard (flags : Flags) (mask : UInt32) : flags.insert mask ⊆ standard := by
  rw [subset_iff]
  intro i h
  rw [insert, UInt32.toBitVec_and, BitVec.getLsbD_and, Bool.and_eq_true] at h
  exact h.2

theorem erase_subset (mask : UInt32) (h : F ⊆ G) : F.erase mask ⊆ G := by
  rw [subset_iff] at h ⊢
  intro i hbit
  rw [erase, UInt32.toBitVec_and, BitVec.getLsbD_and, Bool.and_eq_true] at hbit
  exact h i hbit.1

theorem or_mask_eq_insert (h : flags ⊆ standard) :
    Flags.mk (flags.bits ||| flag.mask) = flags.insert flag.mask := by
  have hbits : standardMask &&& flags.bits = flags.bits := and_eq_of_subset h
  have hmask : standardMask &&& flag.mask = flag.mask := by
    cases flag <;> decide
  rw [insert, UInt32.and_comm, and_or_distrib_left, hbits, hmask]

theorem exists_position_eq (h : flags ⊆ standard) (hbit : flags.bits.toBitVec.getLsbD i = true) :
    ∃ flag : Flag, flag.position = i :=
  Flag.exists_position_eq (subset_iff.1 h i hbit)

/-- Sets without foreign bits are equal when they have the same flags. -/
theorem eq_of_has (hF : F ⊆ standard) (hG : G ⊆ standard) (h : ∀ flag, F.has flag = G.has flag) :
    F = G := by
  have hbit (flag : Flag) : F.bits.toBitVec.getLsbD flag.position =
      G.bits.toBitVec.getLsbD flag.position := by
    rw [← has_eq_getLsbD, ← has_eq_getLsbD, h]
  have hbits : F.bits = G.bits := by
    apply UInt32.toBitVec_inj.1
    apply BitVec.eq_of_getLsbD_eq
    intro i _
    rw [Bool.eq_iff_iff]
    constructor
    · intro hi
      obtain ⟨flag, rfl⟩ := exists_position_eq hF hi
      exact (hbit flag).symm.trans hi
    · intro hi
      obtain ⟨flag, rfl⟩ := exists_position_eq hG hi
      exact (hbit flag).trans hi
  cases F
  cases G
  exact congrArg Flags.mk hbits

theorem mem_toList : flag ∈ flags.toList ↔ flags.has flag = true := by
  rw [toList, List.mem_filter, intersects_mask, and_iff_right flag.mem_all]

theorem nodup_masks_toList (flags : Flags) : (flags.toList.map Flag.mask).Nodup :=
  Flag.nodup_masks.sublist (List.filter_sublist.map Flag.mask)

/-- The masks of the flags in a set are the bits of the set. -/
theorem mem_masks_toList (h : flags ⊆ standard) {bit : UInt32} :
    bit ∈ flags.toList.map Flag.mask ↔
      ∃ i, flags.bits.toBitVec.getLsbD i = true ∧ bit.toBitVec = BitVec.twoPow 32 i := by
  rw [List.mem_map]
  constructor
  · rintro ⟨flag, hflag, rfl⟩
    rw [mem_toList, has_eq_getLsbD] at hflag
    exact ⟨flag.position, hflag, flag.toBitVec_mask⟩
  · rintro ⟨i, hi, hbit⟩
    obtain ⟨flag, rfl⟩ := exists_position_eq h hi
    refine ⟨flag, ?_, ?_⟩
    · rwa [mem_toList, has_eq_getLsbD]
    · exact UInt32.toBitVec_inj.1 (flag.toBitVec_mask.trans hbit.symm)

end Flags

end SpendCheck
