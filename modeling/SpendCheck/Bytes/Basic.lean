namespace SpendCheck

/-- A byte string. -/
abbrev Bytes := List UInt8

namespace Bytes

/-- The number whose base-256 digits are the bytes, least significant first. -/
def toNatLE : Bytes → Nat
  | [] => 0
  | b :: bs => b.toNat + 256 * toNatLE bs

/-- The number whose base-256 digits are the bytes, most significant first. -/
def toNatBE (bytes : Bytes) : Nat :=
  toNatLE bytes.reverse

/-- The `width` low base-256 digits of a number, least significant first.
    Higher digits are dropped. -/
def ofNatLE : (width : Nat) → Nat → Bytes
  | 0, _ => []
  | width + 1, value => UInt8.ofNat value :: ofNatLE width (value / 256)

/-- The `width` low base-256 digits of a number, most significant first.
    Higher digits are dropped. -/
def ofNatBE (width value : Nat) : Bytes :=
  (ofNatLE width value).reverse

/-- Fills up with zero bytes on the left to a given width; longer strings stay. -/
def padLeft (width : Nat) (bytes : Bytes) : Bytes :=
  List.replicate (width - bytes.length) 0 ++ bytes

/-- The first `count` bytes and what follows them, if there are so many. -/
def splitAt? (count : Nat) (bytes : Bytes) : Option (Bytes × Bytes) :=
  let first := bytes.take count
  if first.length = count then some (first, bytes.drop count) else none

@[simp] theorem length_ofNatLE (width value : Nat) : (ofNatLE width value).length = width := by
  induction width generalizing value with
  | zero => rfl
  | succ width ih => simp [ofNatLE, ih]

@[simp] theorem length_ofNatBE (width value : Nat) : (ofNatBE width value).length = width := by
  simp [ofNatBE]

/-- The lowest digit of a number. -/
theorem ofNat_toNat_add (b : UInt8) (higher : Nat) : UInt8.ofNat (b.toNat + 256 * higher) = b := by
  have hb := b.toNat_lt
  apply UInt8.toNat_inj.1
  simp only [UInt8.toNat_ofNat']
  omega

theorem toNat_add_div (b : UInt8) (higher : Nat) : (b.toNat + 256 * higher) / 256 = higher := by
  have hb := b.toNat_lt
  omega

/-- A byte string is the only one of its width for its number. -/
theorem ofNatLE_toNatLE (bytes : Bytes) : ofNatLE bytes.length (toNatLE bytes) = bytes := by
  induction bytes with
  | nil => rfl
  | cons b bs ih =>
    simp only [List.length_cons, toNatLE, ofNatLE, toNat_add_div, ofNat_toNat_add, ih]

/-- A list is split where its front has the given length, if it is that long. -/
theorem splitAt?_eq_some_iff {count : Nat} {bytes first rest : Bytes} :
    splitAt? count bytes = some (first, rest) ↔ bytes = first ++ rest ∧ first.length = count := by
  unfold splitAt?
  simp only [List.length_take]
  constructor
  · intro h
    split at h
    · simp only [Option.some.injEq, Prod.mk.injEq] at h
      obtain ⟨rfl, rfl⟩ := h
      exact ⟨(List.take_append_drop count bytes).symm, by simp; omega⟩
    · cases h
  · rintro ⟨rfl, rfl⟩
    simp

end Bytes

end SpendCheck
