import SpendCheck.Proofs.Transaction.Codec

namespace SpendCheck.Transaction

variable {bytes : Bytes} {tx tx' : Transaction} {consumed : Nat}

/-- Reading from the front takes the one encoding that the transaction has, and
consumes nothing behind it. -/
theorem decodePrefix_eq_ok_iff :
    decodePrefix bytes = .ok (tx, consumed) ↔
      tx.Encodable ∧ consumed ≤ bytes.length ∧ bytes.take consumed = tx.encode := by
  constructor
  · intro h
    unfold decodePrefix at h
    cases hread : reader bytes with
    | error e => simp [hread] at h
    | ok found =>
      obtain ⟨read, rest⟩ := found
      simp only [hread, Except.ok.injEq, Prod.mk.injEq] at h
      obtain ⟨rfl, rfl⟩ := h
      obtain ⟨hencodable, rfl⟩ := (reader_exact bytes read rest).1 hread
      have hconsumed : (read.encode ++ rest).length - rest.length = read.encode.length := by
        rw [List.length_append, Nat.add_sub_cancel]
      have hle : read.encode.length ≤ (read.encode ++ rest).length :=
        (List.prefix_append read.encode rest).length_le
      rw [hconsumed]
      exact ⟨hencodable, hle, List.take_left⟩
  · rintro ⟨hencodable, hle, htake⟩
    have hsplit : bytes = tx.encode ++ bytes.drop consumed := by
      rw [← htake, List.take_append_drop]
    have hread : reader bytes = .ok (tx, bytes.drop consumed) :=
      (reader_exact bytes tx _).2 ⟨hencodable, hsplit⟩
    have hconsumed : bytes.length - (bytes.drop consumed).length = consumed := by
      rw [List.length_drop]
      omega
    simp only [decodePrefix, hread, hconsumed]

theorem decodePrefix_encode_append (h : tx.Encodable) (more : Bytes) :
    decodePrefix (tx.encode ++ more) = .ok (tx, tx.encode.length) :=
  decodePrefix_eq_ok_iff.2 ⟨h, (List.prefix_append tx.encode more).length_le, List.take_left⟩

/-- Exactly the encodings of transactions are decoded, each as the one that it encodes. -/
theorem decode_eq_ok_iff : decode bytes = .ok tx ↔ tx.Encodable ∧ tx.encode = bytes := by
  have hwhole : decode bytes = .ok tx ↔ decodePrefix bytes = .ok (tx, bytes.length) := by
    unfold decode
    cases hread : decodePrefix bytes with
    | error e => simp
    | ok found =>
      obtain ⟨read, consumed⟩ := found
      by_cases hall : consumed = bytes.length
      · simp [hall]
      · simp [hall]
  rw [hwhole, decodePrefix_eq_ok_iff, List.take_length, eq_comm (a := bytes)]
  exact and_congr_right fun _ => and_iff_right (Nat.le_refl _)

/-- Data behind an encoding are refused with the place where it ends. -/
theorem decode_encode_append (h : tx.Encodable) {more : Bytes} (hmore : more ≠ []) :
    decode (tx.encode ++ more) =
      .error (.trailingData tx.encode.length (tx.encode ++ more).length) := by
  have hlength : tx.encode.length ≠ (tx.encode ++ more).length := by
    rw [List.length_append]
    have hpositive := List.length_pos_iff.2 hmore
    omega
  simp only [decode, decodePrefix_encode_append h, if_neg hlength]

/-- No encoding begins with another one. -/
theorem eq_of_encode_prefix (h : tx.Encodable) (h' : tx'.Encodable)
    (hbegins : tx.encode <+: tx'.encode) : tx = tx' := by
  obtain ⟨rest, hrest⟩ := hbegins
  have hsame : tx.encode ++ rest = tx'.encode ++ [] := by
    rw [hrest, List.append_nil]
  exact (encode_append_inj h h' hsame).1

/-- The wire format is a bijection between the transactions whose counts and
lengths can be written and their encodings. Reading from the front succeeds
exactly when an encoding stands there, with its transaction and its length;
reading all of the data succeeds exactly on an encoding, so a transaction is read
back from what it writes and what is read writes the same bytes again; and no
encoding goes on as another one. -/
theorem decode_bijects_encodings :
    (∀ bytes tx consumed, decodePrefix bytes = .ok (tx, consumed) ↔
      tx.Encodable ∧ consumed ≤ bytes.length ∧ bytes.take consumed = tx.encode) ∧
    (∀ bytes tx, decode bytes = .ok tx ↔ tx.Encodable ∧ tx.encode = bytes) ∧
    (∀ tx tx' : Transaction, tx.Encodable → tx'.Encodable → tx.encode <+: tx'.encode →
      tx = tx') := by
  refine ⟨?_, ?_, ?_⟩
  · intro bytes tx consumed
    exact decodePrefix_eq_ok_iff
  · intro bytes tx
    exact decode_eq_ok_iff
  · intro tx tx' h h' hbegins
    exact eq_of_encode_prefix h h' hbegins

/-- A script of 253 bytes is the shortest whose length takes three bytes. Its
transaction is read back with more data behind it, and its encoding does not
begin that of a transaction with another lock time. -/
theorem decode_transaction_with_long_script :
    ∃ tx tx' : Transaction, tx.Encodable ∧ tx'.Encodable ∧ tx ≠ tx' ∧
      decodePrefix (tx.encode ++ [0xfd]) = .ok (tx, tx.encode.length) ∧
      decode tx.encode = .ok tx ∧ ¬tx.encode <+: tx'.encode := by
  let tx : Transaction :=
    ⟨1, [⟨OutPoint.null, List.replicate 253 0x51, 7⟩], [⟨-1, [0x51]⟩], 0⟩
  let later : Transaction := { tx with lockTime := 1 }
  have hencodable : tx.Encodable := by decide +kernel
  have hencodable' : later.Encodable := by decide +kernel
  have hdifferent : tx ≠ later := by
    intro heq
    exact absurd (congrArg lockTime heq) (by decide)
  obtain ⟨hfront, hwhole, hfree⟩ := decode_bijects_encodings
  have hle : tx.encode.length ≤ (tx.encode ++ [0xfd]).length :=
    (List.prefix_append tx.encode [0xfd]).length_le
  refine ⟨tx, later, hencodable, hencodable', hdifferent, ?_, ?_, ?_⟩
  · exact (hfront _ tx _).2 ⟨hencodable, hle, List.take_left⟩
  · exact (hwhole _ tx).2 ⟨hencodable, rfl⟩
  · intro hbegins
    exact hdifferent (hfree tx later hencodable hencodable' hbegins)

end SpendCheck.Transaction
