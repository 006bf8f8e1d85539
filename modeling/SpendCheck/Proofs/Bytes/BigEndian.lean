import SpendCheck.Bytes.Digits

namespace SpendCheck.Bytes

variable {bytes other : Bytes} {b : UInt8} {width : Nat}

theorem toNatLE_append (front back : Bytes) :
    toNatLE (front ++ back) = toNatLE front + 256 ^ front.length * toNatLE back := by
  induction front with
  | nil => simp [toNatLE]
  | cons b front ih =>
    simp only [List.cons_append, toNatLE, ih, List.length_cons, Nat.pow_succ]
    ring

@[simp] theorem toNatBE_nil : toNatBE [] = 0 := rfl

theorem toNatBE_cons (b : UInt8) (rest : Bytes) :
    toNatBE (b :: rest) = 256 ^ rest.length * b.toNat + toNatBE rest := by
  rw [toNatBE, List.reverse_cons, toNatLE_append, List.length_reverse, toNatBE, Nat.add_comm]
  rfl

theorem toNatBE_concat (front : Bytes) (last : UInt8) :
    toNatBE (front ++ [last]) = 256 * toNatBE front + last.toNat := by
  rw [toNatBE, List.reverse_append, List.reverse_singleton, List.singleton_append, toNatLE, toNatBE,
    Nat.add_comm]

theorem toNatBE_lt (bytes : Bytes) : toNatBE bytes < 256 ^ bytes.length := by
  have hlt := toNatLE_lt bytes.reverse
  rwa [List.length_reverse] at hlt

/-- The last digit is the lowest one. -/
theorem ofNatBE_succ (width value : Nat) :
    ofNatBE (width + 1) value = ofNatBE width (value / 256) ++ [UInt8.ofNat value] := by
  rw [ofNatBE, ofNatLE, List.reverse_cons, ofNatBE]

/-- The last byte of a fixed width is the lowest digit. -/
theorem ofNatBE_succ_append_digit {digit : Nat} (h : digit < 256) (width value : Nat) :
    ofNatBE (width + 1) (256 * value + digit) = ofNatBE width value ++ [UInt8.ofNat digit] := by
  have hquotient : (256 * value + digit) / 256 = value := by omega
  have hdigit : UInt8.ofNat (256 * value + digit) = UInt8.ofNat digit := by
    apply UInt8.toNat_inj.1
    simp only [UInt8.toNat_ofNat']
    omega
  rw [ofNatBE_succ, hquotient, hdigit]

/-- Writing drops the digits beyond the width. -/
theorem toNatBE_ofNatBE (width value : Nat) : toNatBE (ofNatBE width value) = value % 256 ^ width := by
  induction width generalizing value with
  | zero => rw [Nat.pow_zero, Nat.mod_one]; rfl
  | succ width ih =>
    have hsplit : value % (256 * 256 ^ width) = value % 256 + 256 * (value / 256 % 256 ^ width) :=
      Nat.mod_mul
    rw [Nat.pow_succ', hsplit, ofNatBE_succ, toNatBE_concat, ih, UInt8.toNat_ofNat', Nat.add_comm]

/-- Zero bytes in front do not count. -/
theorem toNatBE_zero_cons (rest : Bytes) : toNatBE (0 :: rest) = toNatBE rest := by
  simp [toNatBE_cons]

/-- Leading zero bytes do not change a big-endian number. -/
theorem toNatBE_dropWhile_zero (bytes : Bytes) : toNatBE (bytes.dropWhile (· == 0)) = toNatBE bytes := by
  induction bytes with
  | nil => rfl
  | cons b rest ih =>
    rw [List.dropWhile_cons]
    split
    · next hzero => rw [ih, eq_of_beq hzero, toNatBE_zero_cons]
    · rfl

theorem toNatBE_padLeft (width : Nat) (bytes : Bytes) : toNatBE (padLeft width bytes) = toNatBE bytes := by
  rw [padLeft]
  induction width - bytes.length with
  | zero => rfl
  | succ count ih => rw [List.replicate_succ, List.cons_append, toNatBE_zero_cons, ih]

theorem length_padLeft (h : bytes.length ≤ width) : (padLeft width bytes).length = width := by
  rw [padLeft, List.length_append, List.length_replicate, Nat.sub_add_cancel h]

theorem le_toNatBE_cons (h : b ≠ 0) (rest : Bytes) : 256 ^ rest.length ≤ toNatBE (b :: rest) := by
  have hb : 1 ≤ b.toNat := Nat.pos_of_ne_zero fun hzero => h (UInt8.toNat_inj.1 hzero)
  have hmul := Nat.mul_le_mul_left (256 ^ rest.length) hb
  rw [toNatBE_cons]
  omega

/-- Byte strings of one length are in the order of their numbers. -/
theorem lt_iff_toNatBE_lt (h : bytes.length = other.length) :
    bytes < other ↔ toNatBE bytes < toNatBE other := by
  induction bytes generalizing other with
  | nil =>
    rw [List.eq_nil_of_length_eq_zero h.symm]
    simp
  | cons a rest ih =>
    cases other with
    | nil => cases h
    | cons b rest' =>
      have hlength : rest.length = rest'.length := by simpa using h
      have hrest := toNatBE_lt rest
      have hrest' := toNatBE_lt rest'
      rw [List.cons_lt_cons_iff, ih hlength, toNatBE_cons, toNatBE_cons, hlength, UInt8.lt_iff_toNat_lt,
        ← UInt8.toNat_inj]
      rw [hlength] at hrest
      -- a first digit counts for more than all that follows it
      obtain hlt | heq | hgt := Nat.lt_trichotomy a.toNat b.toNat
      · have hmul := Nat.mul_le_mul_left (256 ^ rest'.length) (Nat.succ_le_of_lt hlt)
        rw [Nat.mul_succ] at hmul
        omega
      · rw [heq]
        omega
      · have hmul := Nat.mul_le_mul_left (256 ^ rest'.length) (Nat.succ_le_of_lt hgt)
        rw [Nat.mul_succ] at hmul
        omega

/-- Byte strings of one length for one number are equal. -/
theorem eq_of_toNatBE_eq (hlength : bytes.length = other.length) (h : toNatBE bytes = toNatBE other) :
    bytes = other := by
  have hreverse : bytes.reverse = other.reverse := by
    rw [← ofNatLE_toNatLE bytes.reverse, ← ofNatLE_toNatLE other.reverse, List.length_reverse,
      List.length_reverse, hlength]
    exact congrArg (ofNatLE other.length) h
  exact List.reverse_inj.1 hreverse

end SpendCheck.Bytes
