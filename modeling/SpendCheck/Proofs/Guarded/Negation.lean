import Mathlib.Data.List.Induction
import SpendCheck.Proofs.Bytes.BigEndian
import SpendCheck.Proofs.Guarded.Access
import SpendCheck.Signature.Negation

namespace SpendCheck

/-- A number as a signed 16-bit word. -/
def Checked.int16 (value : Int) : Checked Int :=
  if -2 ^ 15 ≤ value ∧ value < 2 ^ 15 then .ok value else .error .overflow

theorem Checked.int16_eq_ok {value : Int} (hlow : -2 ^ 15 ≤ value) (hhigh : value < 2 ^ 15) :
    int16 value = .ok value :=
  if_pos ⟨hlow, hhigh⟩

namespace Guarded

open Checked

/-- The group order in 32 big-endian bytes. -/
def orderBytes : Bytes :=
  [0xff, 0xff, 0xff, 0xff, 0xff, 0xff, 0xff, 0xff, 0xff, 0xff, 0xff, 0xff, 0xff, 0xff, 0xff, 0xfe,
    0xba, 0xae, 0xdc, 0xe6, 0xaf, 0x48, 0xa0, 0x3b, 0xbf, 0xd2, 0x5e, 0x8c, 0xd0, 0x36, 0x41, 0x41]

/-- Subtracts bytes from those of the group order, from a position down to the first one. In front
of them is a byte more. Where a byte of the order is too small, it borrows from the one in front
of it. -/
def subtractFrom : (position : Nat) → (padded : Bytes) → (borrow : Int) → Checked Bytes
  | 0, padded, _ => return padded
  | position + 1, padded, borrow => do
    let digit ← get orderBytes (← difference (position + 1) 1)
    let subtrahend ← get padded (position + 1)
    let value ← int16 ((← int16 (digit.toNat - subtrahend.toNat)) - borrow)
    if value < 0 then
      let value ← int16 (value + 256)
      subtractFrom position (← store padded (position + 1) (UInt8.ofNat value.toNat)) 1
    else subtractFrom position (← store padded (position + 1) (UInt8.ofNat value.toNat)) 0

/-- Drops zero bytes on the left for as long as the number stays non-negative. -/
def dropPadding : (turns : Nat) → Bytes → Checked Bytes
  | 0, _ => .error .endless
  | turns + 1, bytes => do
    if 1 < bytes.length then
      if (← get bytes 0) = 0 then
        if (← get bytes 1) < 0x80 then
          return ← dropPadding turns (← sliceFrom bytes 1)
    return bytes

/-- The difference between the group order and a big-endian number of at most 33 bytes, shortest
with a clear high bit. The number is copied behind zeros into a buffer of 33 bytes. -/
def negatedBody (s : Bytes) : Checked Bytes := do
  let zeros := List.replicate 33 0
  let padding ← difference zeros.length s.length
  let copied ← copy (← sliceFrom zeros padding) s
  let subtracted ← subtractFrom 32 (zeros.take padding ++ copied) 0
  dropPadding 33 (← store subtracted 0 0)

/-- Replaces the second integer of a signature by its negative. A part that lies outside of the
signature is no fault here. -/
def negateSignatureS (sig : Bytes) : Checked (Option Bytes) := do
  match componentSizes? sig with
  | none => return none
  | some (sizeR, sizeS) =>
    let start := 6 + sizeR
    match slice sig 4 (4 + sizeR), slice sig start (start + sizeS) with
    | .ok r, .ok s =>
      let trailer ← sliceFrom sig (start + sizeS)
      if 33 < sizeS then return none
      return some (Der.sequence r (← negatedBody s) ++ trailer)
    | _, _ => return none

theorem toNatBE_orderBytes : orderBytes.toNatBE = Curve.groupOrder := by
  decide

/-- One turn writes one digit. It borrows where the digit of the order is too small for what is to
be subtracted, an earlier borrow included, and stays within the 16-bit words. -/
theorem exists_turn {front : Bytes} (hfront : front.length < orderBytes.length) (first subtrahend : UInt8)
    (back : Bytes) {borrow : Nat} (hborrow : borrow ≤ 1) :
    ∃ next digit, next ≤ 1 ∧ digit < 256 ∧
      digit + subtrahend.toNat + borrow = orderBytes[front.length].toNat + 256 * next ∧
      subtractFrom (front.length + 1) (first :: (front ++ subtrahend :: back)) borrow =
        subtractFrom front.length (first :: (front ++ UInt8.ofNat digit :: back)) next := by
  have hdifference : difference (front.length + 1) 1 = .ok front.length := difference_eq_ok (by omega)
  have hsubtrahend : get (first :: (front ++ subtrahend :: back)) (front.length + 1) = .ok subtrahend :=
    get_eq_ok_iff.2 (by simp)
  have hstore (b : UInt8) : store (first :: (front ++ subtrahend :: back)) (front.length + 1) b =
      .ok (first :: (front ++ b :: back)) := by
    rw [store_eq_ok (by simp)]
    simp
  rw [subtractFrom, hdifference, ok_bind, get_eq_ok hfront, ok_bind, hsubtrahend, ok_bind]
  generalize orderBytes[front.length] = minuend
  have hminuend := minuend.toNat_lt
  have hbyte := subtrahend.toNat_lt
  have hdistance : int16 (minuend.toNat - subtrahend.toNat) = .ok (minuend.toNat - subtrahend.toNat) :=
    int16_eq_ok (by omega) (by omega)
  have hvalue : int16 (minuend.toNat - subtrahend.toNat - borrow) =
      .ok (minuend.toNat - subtrahend.toNat - borrow) :=
    int16_eq_ok (by omega) (by omega)
  rw [hdistance, ok_bind, hvalue, ok_bind]
  by_cases hsmall : (minuend.toNat - subtrahend.toNat - borrow : Int) < 0
  · have hlent : int16 (minuend.toNat - subtrahend.toNat - borrow + 256) =
        .ok (minuend.toNat - subtrahend.toNat - borrow + 256) :=
      int16_eq_ok (by omega) (by omega)
    refine ⟨1, (minuend.toNat - subtrahend.toNat - borrow + 256 : Int).toNat, Nat.le_refl 1, by omega,
      by omega, ?_⟩
    rw [if_pos hsmall, hlent, ok_bind, hstore, ok_bind]
    rfl
  · refine ⟨0, (minuend.toNat - subtrahend.toNat - borrow : Int).toNat, Nat.zero_le 1, by omega,
      by omega, ?_⟩
    rw [if_neg hsmall, hstore, ok_bind]
    rfl

/-- The turns leave the difference in front, whatever is behind it already. A borrow is the same
as one more to subtract. -/
theorem subtractFrom_eq_ok (first : UInt8) (front back : Bytes) {borrow : Nat} (hborrow : borrow ≤ 1)
    (hfront : front.length ≤ orderBytes.length) :
    subtractFrom front.length (first :: (front ++ back)) borrow =
      .ok (first :: (Bytes.ofNatBE front.length (Bytes.toNatBE (orderBytes.take front.length) +
        (256 ^ front.length - (Bytes.toNatBE front + borrow))) ++ back)) := by
  -- the turns go down, so each takes the last byte in front, and the next one has another borrow
  induction front using List.reverseRecOn generalizing back borrow with
  | nil => rfl
  | append_singleton front subtrahend ih =>
    rw [List.length_append, List.length_singleton] at hfront ⊢
    obtain ⟨next, digit, hnext, hdigit, hsum, hturn⟩ := exists_turn hfront first subtrahend back hborrow
    have htake : orderBytes.take (front.length + 1) =
        orderBytes.take front.length ++ [orderBytes[front.length]] :=
      List.take_succ_eq_append_getElem hfront
    have hbyte := subtrahend.toNat_lt
    have hlow := Bytes.toNatBE_lt front
    rw [htake, Bytes.toNatBE_concat, Bytes.toNatBE_concat, Nat.pow_succ]
    have hvalue : 256 * Bytes.toNatBE (orderBytes.take front.length) + orderBytes[front.length].toNat +
        (256 ^ front.length * 256 - (256 * Bytes.toNatBE front + subtrahend.toNat + borrow)) =
          256 * (Bytes.toNatBE (orderBytes.take front.length) +
            (256 ^ front.length - (Bytes.toNatBE front + next))) + digit := by
      omega
    rw [List.append_assoc, List.singleton_append, hturn, ih _ hnext (Nat.le_of_lt hfront), hvalue,
      Bytes.ofNatBE_succ_append_digit hdigit, List.append_assoc, List.singleton_append]

/-- The second byte is looked at only where there is one, and every turn drops a byte. -/
theorem dropPadding_eq_ok (first : UInt8) (rest : Bytes) {turns : Nat} (hturns : rest.length < turns) :
    dropPadding turns (first :: rest) = .ok (SpendCheck.dropPadding (first :: rest)) := by
  induction rest generalizing first turns with
  | nil =>
    cases turns with
    | zero => cases hturns
    | succ turns => rfl
  | cons second rest ih =>
    cases turns with
    | zero => cases hturns
    | succ turns =>
      have hlong : 1 < (first :: second :: rest).length := by simp
      have hfirst : get (first :: second :: rest) 0 = .ok first := rfl
      have hsecond : get (first :: second :: rest) 1 = .ok second := rfl
      have hslice : sliceFrom (first :: second :: rest) 1 = .ok (second :: rest) :=
        sliceFrom_eq_ok (Nat.le_of_lt hlong)
      have hnext := ih second (Nat.lt_of_succ_lt_succ hturns)
      rw [dropPadding, SpendCheck.dropPadding, if_pos hlong, hfirst, ok_bind]
      by_cases hzero : first = 0
      · rw [if_pos hzero, hsecond, ok_bind]
        by_cases hlow : second < 0x80
        · rw [if_pos hlow, if_pos ⟨hzero, hlow⟩, hslice, ok_bind, hnext]
        · rw [if_neg hlow, if_neg fun h => hlow h.2, pure_eq_ok]
      · rw [if_neg hzero, if_neg fun h => hzero h.1, pure_eq_ok]

theorem beyond32_eq : beyond32 = 256 ^ 32 := by
  decide

/-- At most 33 bytes fit into the buffer, and the digits of the difference stay within 16-bit
words. -/
theorem negatedBody_eq_ok {s : Bytes} (h : s.length ≤ 33) :
    negatedBody s = .ok (SpendCheck.negatedBody s) := by
  have hdifference : difference (List.replicate 33 (0 : UInt8)).length s.length = .ok (33 - s.length) :=
    difference_eq_ok h
  have hroom : ((List.replicate 33 (0 : UInt8)).drop (33 - s.length)).length = s.length := by
    simp; omega
  have hslice : sliceFrom (List.replicate 33 (0 : UInt8)) (33 - s.length) =
      .ok ((List.replicate 33 0).drop (33 - s.length)) :=
    sliceFrom_eq_ok (Nat.sub_le 33 s.length)
  have hpadded : (List.replicate 33 0).take (33 - s.length) ++ s = Bytes.padLeft 33 s := by
    rw [List.take_replicate, Nat.min_eq_left (Nat.sub_le 33 s.length), Bytes.padLeft]
  have hlength := Bytes.length_padLeft h
  have hvalue := Bytes.toNatBE_padLeft 33 s
  simp only [negatedBody, hdifference, hslice, copy_eq_ok hroom, ok_bind, hpadded]
  obtain ⟨first, front, hcons⟩ := List.exists_cons_of_length_eq_add_one hlength
  rw [hcons] at hlength hvalue ⊢
  have hfront : front.length = 32 := Nat.succ.inj hlength
  have hlow : Bytes.toNatBE front = s.toNatBE % beyond32 := by
    have hlt := Bytes.toNatBE_lt front
    rw [hfront] at hlt
    rw [← hvalue, Bytes.toNatBE_cons, hfront, beyond32_eq, Nat.mul_add_mod, Nat.mod_eq_of_lt hlt]
  have hsubtract := subtractFrom_eq_ok first front [] (Nat.zero_le 1) (hfront ▸ Nat.le_refl 32)
  have hwhole : orderBytes.take 32 = orderBytes := rfl
  rw [hfront, List.append_nil, List.append_nil, hwhole, toNatBE_orderBytes, Nat.add_zero, hlow,
    ← beyond32_eq] at hsubtract
  have hstore (rest : Bytes) : store (first :: rest) 0 0 = .ok (0 :: rest) :=
    store_eq_ok (Nat.succ_pos _) 0
  have hdrop := @dropPadding_eq_ok 0
    (Bytes.ofNatBE 32 (Curve.groupOrder + (beyond32 - s.toNatBE % beyond32))) 33 (by simp)
  rw [Nat.cast_zero] at hsubtract
  rw [hsubtract, ok_bind, hstore, ok_bind, hdrop, SpendCheck.negatedBody]

/-- The length byte of the second integer lies inside, and so does all that is in front of it. -/
theorem lt_length_of_componentSizes? {sig : Bytes} {sizeR sizeS : Nat}
    (h : componentSizes? sig = some (sizeR, sizeS)) : 5 + sizeR < sig.length := by
  simp only [componentSizes?, Option.bind_eq_bind, Option.bind_eq_some_iff, Option.pure_def,
    Option.some.injEq, Prod.mk.injEq] at h
  obtain ⟨_, hR, _, hS, rfl, rfl⟩ := h
  simp only [StrictDer.sizeS?, hR, Option.bind_eq_bind, Option.bind_some, Option.map_eq_some_iff] at hS
  obtain ⟨byte, hget, -⟩ := hS
  exact (List.getElem?_eq_some_iff.1 hget).1

/-- A range that lies inside is what is split off behind the part in front of it. -/
theorem exists_part {sig : Bytes} {start size : Nat} (h : start + size ≤ sig.length) :
    ∃ part, part.length = size ∧ slice sig start (start + size) = .ok part ∧
      Bytes.splitAt? size (sig.drop start) = some (part, sig.drop (start + size)) := by
  have hlength : ((sig.drop start).take size).length = size :=
    List.length_take_of_le (by rw [List.length_drop]; omega)
  refine ⟨(sig.drop start).take size, hlength, ?_, ?_⟩
  · rw [slice_eq_ok (Nat.le_add_right start size) h, List.drop_take, Nat.add_sub_cancel_left]
  · rw [Bytes.splitAt?_eq_some_iff, ← List.drop_drop, List.take_append_drop]
    exact ⟨rfl, hlength⟩

/-- The sizes are followed only as far as the signature reaches. -/
theorem negateSignatureS_eq_ok (sig : Bytes) : negateSignatureS sig = .ok (negateSignatureS? sig) := by
  rw [negateSignatureS, negateSignatureS?]
  cases hsizes : componentSizes? sig with
  | none => rfl
  | some sizes =>
    obtain ⟨sizeR, sizeS⟩ := sizes
    have hlength := lt_length_of_componentSizes? hsizes
    obtain ⟨r, -, hsliceR, hsplitR⟩ := @exists_part sig 4 sizeR (by omega)
    have hstart : (sig.drop (4 + sizeR)).drop 2 = sig.drop (6 + sizeR) := by
      rw [List.drop_drop, Nat.add_right_comm]
    simp only [hsliceR, hsplitR, hstart, Option.bind_eq_bind, Option.bind_some]
    by_cases hinside : 6 + sizeR + sizeS ≤ sig.length
    · obtain ⟨s, hsize, hsliceS, hsplitS⟩ := exists_part hinside
      simp only [hsliceS, hsplitS, sliceFrom_eq_ok hinside, ok_bind, Option.bind_some]
      by_cases hlong : 33 < sizeS
      · rw [if_pos hlong, if_pos hlong, pure_eq_ok]
      · rw [if_neg hlong, if_neg hlong, negatedBody_eq_ok (by omega), ok_bind, pure_eq_ok]
    · have hsliceS : slice sig (6 + sizeR) (6 + sizeR + sizeS) = .error .range :=
        if_neg fun h => hinside h.2
      have hsplitS : Bytes.splitAt? sizeS (sig.drop (6 + sizeR)) = none := by
        rw [Bytes.splitAt?_eq_ite, if_neg (by rw [List.length_drop]; omega)]
      rw [hsliceS, hsplitS]
      rfl

end Guarded

end SpendCheck
