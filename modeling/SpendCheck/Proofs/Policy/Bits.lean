import SpendCheck.Policy.Flags

namespace SpendCheck

namespace Flag

/-- The position of the bit of a flag. -/
def position : Flag → Nat
  | p2sh => 0
  | strictEnc => 1
  | derSig => 2
  | lowS => 3
  | nullDummy => 4
  | sigPushOnly => 5

theorem toBitVec_mask (flag : Flag) : flag.mask.toBitVec = BitVec.twoPow 32 flag.position := by
  cases flag <;> decide

theorem toBitVec_mask_ne_zero (flag : Flag) : flag.mask.toBitVec ≠ 0#32 := by
  cases flag <;> decide

theorem getLsbD_mask (flag other : Flag) :
    flag.mask.toBitVec.getLsbD other.position = (other == flag) := by
  cases flag <;> cases other <;> decide

theorem getLsbD_standardMask (flag : Flag) :
    Flags.standardMask.toBitVec.getLsbD flag.position = true := by
  cases flag <;> decide

end Flag

namespace Flags

variable (flags : Flags) (flag other : Flag) (mask mask' : UInt32)

/-- What is left of a set by the mask of one flag is that mask or nothing. -/
theorem toBitVec_and_mask :
    (flags.bits &&& flag.mask).toBitVec =
      if flags.bits.toBitVec.getLsbD flag.position then flag.mask.toBitVec else 0#32 := by
  rw [UInt32.toBitVec_and, flag.toBitVec_mask, BitVec.and_twoPow]

theorem has_eq_getLsbD : flags.has flag = flags.bits.toBitVec.getLsbD flag.position := by
  have hand := flags.toBitVec_and_mask flag
  rw [has, contains]
  cases hbit : flags.bits.toBitVec.getLsbD flag.position with
  | true =>
    rw [hbit, if_pos rfl] at hand
    exact beq_iff_eq.2 (UInt32.toBitVec_inj.1 hand)
  | false =>
    rw [hbit] at hand
    apply beq_eq_false_iff_ne.2
    intro heq
    rw [heq] at hand
    exact flag.toBitVec_mask_ne_zero hand

/-- One flag is in the set as a whole or not at all. -/
theorem intersects_mask : flags.intersects flag.mask = flags.has flag := by
  have hand := flags.toBitVec_and_mask flag
  rw [has_eq_getLsbD, intersects]
  cases hbit : flags.bits.toBitVec.getLsbD flag.position with
  | true =>
    rw [hbit, if_pos rfl] at hand
    apply bne_iff_ne.2
    intro heq
    rw [heq] at hand
    exact flag.toBitVec_mask_ne_zero hand.symm
  | false =>
    rw [hbit] at hand
    exact bne_eq_false_iff_eq.2 (UInt32.toBitVec_inj.1 hand)

theorem and_or_distrib_left (bits : UInt32) :
    bits &&& (mask ||| mask') = bits &&& mask ||| bits &&& mask' := by
  apply UInt32.toBitVec_inj.1
  simp only [UInt32.toBitVec_and, UInt32.toBitVec_or, BitVec.and_or_distrib_left]

theorem intersects_or :
    flags.intersects (mask ||| mask') = (flags.intersects mask || flags.intersects mask') := by
  rw [Bool.eq_iff_iff]
  simp only [intersects, and_or_distrib_left, Bool.or_eq_true, bne_iff_ne, ne_eq,
    UInt32.or_eq_zero_iff, Decidable.not_and_iff_not_or_not]

/-- Three flags ask for strict DER. -/
theorem intersects_strictDer :
    flags.intersects (Flag.derSig.mask ||| Flag.lowS.mask ||| Flag.strictEnc.mask) =
      (flags.has .derSig || flags.has .lowS || flags.has .strictEnc) := by
  rw [intersects_or, intersects_or, intersects_mask, intersects_mask, intersects_mask]

theorem has_insert : (flags.insert flag.mask).has other = (other == flag || flags.has other) := by
  simp only [has_eq_getLsbD, insert, UInt32.toBitVec_and, UInt32.toBitVec_or, BitVec.getLsbD_and,
    BitVec.getLsbD_or, Flag.getLsbD_mask, Flag.getLsbD_standardMask, Bool.and_true, Bool.or_comm]

theorem has_erase : (flags.erase flag.mask).has other = (other != flag && flags.has other) := by
  have hinside : other.position < 32 := by
    cases other <;> decide
  simp only [has_eq_getLsbD, erase, UInt32.toBitVec_and, UInt32.toBitVec_not, BitVec.getLsbD_and,
    BitVec.getLsbD_not, Flag.getLsbD_mask, hinside, decide_true, Bool.true_and, Bool.and_comm, bne]

/-- The sets contain the same flags, apart from one perhaps. -/
def SameBut (flag : Flag) (F G : Flags) : Prop :=
  ∀ other, other ≠ flag → F.has other = G.has other

theorem sameBut_insert (flag : Flag) (flags : Flags) : SameBut flag flags (flags.insert flag.mask) := by
  intro other hne
  rw [has_insert, beq_eq_false_iff_ne.2 hne, Bool.false_or]

theorem sameBut_erase (flag : Flag) (flags : Flags) : SameBut flag flags (flags.erase flag.mask) := by
  intro other hne
  rw [has_erase, bne_iff_ne.2 hne, Bool.true_and]

end Flags

end SpendCheck
