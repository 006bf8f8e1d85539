import SpendCheck.Proofs.Spend.Parsing

namespace SpendCheck

namespace Wire

variable {α β : Type}

/-- More data behind what a reader is given do not change its answer: it takes the same
value and leaves more, and it refuses a count for the same reason. Only data that end
too early may be answered in another way once more of them are there. -/
def Stable (reader : Reader α) : Prop :=
  ∀ bytes more, reader bytes ≠ .error .truncated →
    reader (bytes ++ more) = (reader bytes).map fun taken => (taken.1, taken.2 ++ more)

theorem Stable.pure (a : α) : Stable (Pure.pure a) := fun _ _ _ => rfl

theorem stable_throw (e : Error) : Stable (throw e : Reader α) := fun _ _ _ => rfl

/-- If readers answer the same for more data, so do they one after the other. -/
theorem Stable.bind {first : Reader α} {next : α → Reader β} (hfirst : Stable first)
    (hnext : ∀ a, Stable (next a)) : Stable (first >>= next) := by
  intro bytes more hanswer
  have hbind : ∀ data, (first >>= next) data = (first data).bind fun taken => next taken.1 taken.2 :=
    fun _ => rfl
  rw [hbind] at hanswer
  rw [hbind, hbind]
  cases hread : first bytes with
  | error e =>
    rw [hread] at hanswer
    have hfailed : first bytes ≠ .error .truncated := by
      rw [hread]
      rintro ⟨⟩
      exact hanswer rfl
    rw [hfirst bytes more hfailed, hread]
    rfl
  | ok taken =>
    obtain ⟨a, mid⟩ := taken
    have hextended : first (bytes ++ more) = .ok (a, mid ++ more) := by
      rw [hfirst bytes more (by simp [hread]), hread]
      rfl
    rw [hread] at hanswer
    rw [hextended]
    exact hnext a mid more hanswer

/-- A read of fixed length can only find the bytes too short. -/
theorem eq_truncated_of_readFixed {count : Nat} {bytes : Bytes} {e : Error}
    (h : readFixed count bytes = .error e) : e = .truncated := by
  unfold readFixed at h
  split at h
  · cases h
    rfl
  · cases h

theorem stable_readFixed (count : Nat) : Stable (readFixed count) := by
  intro bytes more hanswer
  cases hread : readFixed count bytes with
  | error e => exact absurd (eq_truncated_of_readFixed hread ▸ hread) hanswer
  | ok taken =>
    obtain ⟨first, rest⟩ := taken
    obtain rfl := readFixed_eq_ok_iff.1 hread
    rw [List.append_assoc]
    exact readFixed_eq_ok_iff.2 rfl

theorem stable_readNat (width : Nat) : Stable (readNat width) :=
  (stable_readFixed width).bind fun _ => .pure _

theorem stable_readAtLeast (least width : Nat) : Stable (readAtLeast least width) := by
  refine (stable_readNat width).bind fun count => ?_
  split
  · exact stable_throw .nonMinimal
  · exact .pure count

/-- A compact size is read from its first bytes, whatever follows. -/
theorem stable_readCompactSize : Stable readCompactSize := by
  refine (stable_readNat 1).bind fun marker => ?_
  split
  · exact .pure marker
  · split
    · exact stable_readAtLeast 0xfd 2
    · split
      · exact stable_readAtLeast 0x10000 4
      · exact stable_readAtLeast 0x100000000 8

theorem stable_readSized : Stable readSized :=
  Stable.bind stable_readCompactSize fun count => (stable_readFixed count).bind fun _ => .pure _

theorem Stable.many {item : Reader α} (h : Stable item) (count : Nat) : Stable (readMany item count) := by
  induction count with
  | zero => exact .pure []
  | succ count ih => exact h.bind fun first => ih.bind fun others => .pure (first :: others)

theorem Stable.counted {item : Reader α} (h : Stable item) : Stable (readCounted item) :=
  Stable.bind stable_readCompactSize h.many

/-- Where the whole encoding of a value is read, a part of it that ends before its end is
too short, and nothing else is wrong with it. -/
theorem Stable.eq_truncated_of_cut {reader : Reader α} {encode : α → Bytes} {valid : α → Prop}
    (hstable : Stable reader) (hexact : Exact reader encode valid) {a : α} (ha : valid a) {bytes : Bytes}
    (hbegins : bytes <+: encode a) (hshorter : bytes ≠ encode a) :
    reader bytes = .error .truncated := by
  obtain ⟨more, hmore⟩ := hbegins
  have hwhole : reader (bytes ++ more) = .ok (a, []) :=
    (hexact _ a []).2 ⟨ha, by rw [hmore, List.append_nil]⟩
  by_contra hanswer
  -- The answer to the part would be the answer to the whole, which leaves nothing.
  rw [hstable bytes more hanswer] at hwhole
  cases hread : reader bytes with
  | error e =>
    rw [hread] at hwhole
    cases hwhole
  | ok taken =>
    obtain ⟨value, rest⟩ := taken
    rw [hread] at hwhole
    simp only [Except.map, Except.ok.injEq, Prod.mk.injEq, List.append_eq_nil_iff] at hwhole
    obtain ⟨rfl, rfl, rfl⟩ := hwhole
    exact hshorter (by rw [← hmore, List.append_nil])

end Wire

open Wire

theorem Input.stable_reader : Stable Input.reader :=
  (stable_readFixed 32).bind fun _ => (stable_readNat 4).bind fun _ => Stable.bind stable_readSized fun _ =>
    (stable_readNat 4).bind fun _ => .pure _

theorem Output.stable_reader : Stable Output.reader :=
  (stable_readNat 8).bind fun _ => Stable.bind stable_readSized fun _ => .pure _

namespace Transaction

theorem stable_reader : Stable reader :=
  (stable_readNat 4).bind fun _ => (Stable.counted Input.stable_reader).bind fun _ =>
    (Stable.counted Output.stable_reader).bind fun _ => (stable_readNat 4).bind fun _ => .pure _

variable {bytes : Bytes} {tx : Transaction}

theorem decodePrefix_of_truncated (h : tx.Encodable) (hbegins : bytes <+: tx.encode)
    (hshorter : bytes ≠ tx.encode) : decodePrefix bytes = .error .truncated := by
  rw [decodePrefix, Stable.eq_truncated_of_cut stable_reader reader_exact h hbegins hshorter]

/-- Data that are not the encoding of a transaction but begin one, or begin with one, are
told apart. Wherever the data are cut off, inside of a field, of a count or between two
of them, they are too short and nothing else: no count is reported, and no
transaction is found. Whatever stands behind a whole transaction, it is found with
its own length, and the data are refused for being longer. -/
theorem truncated_and_overlong_classified (h : tx.Encodable) :
    (∀ bytes, bytes <+: tx.encode → bytes ≠ tx.encode →
      decodePrefix bytes = .error .truncated ∧
        decode bytes = .error (.malformed .truncated) ∧
        parse bytes = .error .deserialize) ∧
    (∀ more, more ≠ [] →
      decodePrefix (tx.encode ++ more) = .ok (tx, tx.encode.length) ∧
        decode (tx.encode ++ more) =
          .error (.trailingData tx.encode.length (tx.encode ++ more).length) ∧
        parse (tx.encode ++ more) = .error .sizeMismatch) := by
  constructor
  · intro bytes hbegins hshorter
    have hfront := decodePrefix_of_truncated h hbegins hshorter
    have hwhole : decode bytes = .error (.malformed .truncated) := by
      rw [decode, hfront]
    refine ⟨hfront, hwhole, ?_⟩
    rw [parse, hwhole]
    rfl
  · intro more hmore
    exact ⟨decodePrefix_encode_append h more, decode_encode_append h hmore, parse_encode_append h hmore⟩

/-- The length of a script of 253 bytes takes three bytes. Data that are cut off behind the
first of them are too short, and a byte behind the transaction is one too many. -/
theorem truncated_inside_length_of_script :
    ∃ tx : Transaction, tx.Encodable ∧
      tx.encode.take 42 = (tx.encode.take 41).concat 0xfd ∧
      decode (tx.encode.take 42) = .error (.malformed .truncated) ∧
      parse (tx.encode.take 42) = .error .deserialize ∧
      decode (tx.encode ++ [0x00]) = .error (.trailingData 316 317) ∧
      parse (tx.encode ++ [0x00]) = .error .sizeMismatch := by
  let tx : Transaction :=
    ⟨1, [⟨OutPoint.null, List.replicate 253 0x51, 7⟩], [⟨-1, [0x51]⟩], 0⟩
  have hencodable : tx.Encodable := by decide +kernel
  have hlength : tx.encode.length = 316 := by decide +kernel
  have hextended : (tx.encode ++ [0x00]).length = 317 := by rw [List.length_append, hlength]; rfl
  have hshorter : tx.encode.take 42 ≠ tx.encode := by
    intro heq
    have htaken := congrArg List.length heq
    rw [List.length_take, hlength] at htaken
    exact absurd htaken (by decide)
  obtain ⟨hcut, hbehind⟩ := truncated_and_overlong_classified hencodable
  obtain ⟨-, hdecode, hparse⟩ := hcut (tx.encode.take 42) (List.take_prefix 42 tx.encode) hshorter
  obtain ⟨-, hover, hmismatch⟩ := hbehind [0x00] (List.cons_ne_nil _ _)
  rw [hlength, hextended] at hover
  exact ⟨tx, hencodable, by decide +kernel, hdecode, hparse, hover, hmismatch⟩

end Transaction

end SpendCheck
