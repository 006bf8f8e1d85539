import Mathlib.Tactic.Ring
import SpendCheck.Bytes.Basic

namespace SpendCheck.Bytes

theorem toNatLE_lt (bytes : Bytes) : toNatLE bytes < 256 ^ bytes.length := by
  induction bytes with
  | nil => simp [toNatLE]
  | cons b bs ih =>
    have hb := b.toNat_lt
    simp only [toNatLE, List.length_cons, Nat.pow_succ]
    omega

/-- Writing loses only the digits beyond the width. -/
theorem toNatLE_ofNatLE {width value : Nat} (h : value < 256 ^ width) :
    toNatLE (ofNatLE width value) = value := by
  induction width generalizing value with
  | zero =>
    simp only [Nat.pow_zero] at h
    simp only [ofNatLE, toNatLE]
    omega
  | succ width ih =>
    have hquotient : value / 256 < 256 ^ width := by
      rw [Nat.div_lt_iff_lt_mul (by decide)]
      simpa only [Nat.pow_succ] using h
    simp only [ofNatLE, toNatLE, ih hquotient, UInt8.toNat_ofNat']
    omega

end SpendCheck.Bytes
