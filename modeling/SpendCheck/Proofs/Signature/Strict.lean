import SpendCheck.Proofs.Guarded.Signature
import SpendCheck.Proofs.Signature.Minimal

namespace SpendCheck.StrictDer

/-- The parts of a signature with a hash type, small enough for the strict form. -/
@[ext] structure Parts where
  r : Bytes
  s : Bytes
  hashType : UInt8
  minimal_r : Der.IsMinimal r
  minimal_s : Der.IsMinimal s
  length_le : r.length + s.length + 7 ≤ 73

/-- The bytes of a signature with a hash type. -/
def Parts.bytes (parts : Parts) : Bytes :=
  Der.sequence parts.r parts.s ++ [parts.hashType]

/-- What the positions of a signature hold if the length bytes are followed: the two tags in
front, each integer behind its own tag and length, and the hash type at the end. -/
def layout (tag length tagR sizeR : UInt8) (r : Bytes) (tagS sizeS : UInt8) (s : Bytes)
    (hashType : UInt8) : Bytes :=
  [tag, length, tagR, sizeR] ++ (r ++ ([tagS, sizeS] ++ (s ++ [hashType])))

variable {sig r s : Bytes} {tag length tagR sizeR tagS sizeS hashType : UInt8}

theorem length_layout : (layout tag length tagR sizeR r tagS sizeS s hashType).length =
    r.length + s.length + 7 := by
  simp only [layout, List.length_append, List.length_cons, List.length_nil]
  omega

theorem Parts.bytes_eq_layout (parts : Parts) : parts.bytes =
    layout 0x30 (UInt8.ofNat (4 + parts.r.length + parts.s.length)) 0x02 (UInt8.ofNat parts.r.length)
      parts.r 0x02 (UInt8.ofNat parts.s.length) parts.s parts.hashType := by
  simp [bytes, layout, Der.sequence, Der.integer]

/-- Minimality looks at the body of the integer, wherever it stands. -/
theorem isMinimalInteger?_append (front body back : Bytes) :
    isMinimalInteger? (front ++ (body ++ back)) front.length body.length =
      some (decide (Der.IsMinimal body)) := by
  unfold isMinimalInteger?
  match body with
  | [] => rfl
  | [first] =>
    by_cases hlow : first < 0x80
    · simp [Bytes.and_0x80_eq_zero_iff, hlow, Der.IsMinimal]
    · simp [Bytes.and_0x80_eq_zero_iff, hlow, Der.IsMinimal]
  | first :: second :: rest =>
    by_cases hlow : first < 0x80
    · by_cases hzero : first = 0
      · simp [Bytes.and_0x80_bne_zero, hzero, Der.IsMinimal]
      · simp [Bytes.and_0x80_eq_zero_iff, hlow, hzero, Der.IsMinimal]
    · simp [Bytes.and_0x80_eq_zero_iff, hlow, Der.IsMinimal]

theorem sizeR?_layout : sizeR? (layout tag length tagR sizeR r tagS sizeS s hashType) = some sizeR.toNat :=
  rfl

/-- The tag of the second integer follows the first integer, and its length follows the tag. -/
theorem getElem?_layout : (layout tag length tagR sizeR r tagS sizeS s hashType)[r.length + 4]? = some tagS ∧
    (layout tag length tagR sizeR r tagS sizeS s hashType)[5 + r.length]? = some sizeS := by
  have hposition : 5 + r.length = r.length + 1 + 4 := by omega
  rw [hposition]
  exact ⟨by simp [layout], by simp [layout]⟩

theorem sizeS?_layout (hr : r.length = sizeR.toNat) :
    sizeS? (layout tag length tagR sizeR r tagS sizeS s hashType) = some sizeS.toNat := by
  rw [sizeS?, sizeR?_layout, ← hr]
  simp only [Option.bind_eq_bind, Option.bind_some, getElem?_layout.2, Option.map_some]

/-- At both positions the reader decides whether the integer there is minimal. -/
theorem isMinimalInteger?_layout :
    isMinimalInteger? (layout tag length tagR sizeR r tagS sizeS s hashType) 4 r.length =
        some (decide (Der.IsMinimal r)) ∧
      isMinimalInteger? (layout tag length tagR sizeR r tagS sizeS s hashType) (r.length + 6) s.length =
        some (decide (Der.IsMinimal s)) := by
  have hs := isMinimalInteger?_append ([tag, length, tagR, sizeR] ++ r ++ [tagS, sizeS]) s [hashType]
  constructor
  · exact isMinimalInteger?_append [tag, length, tagR, sizeR] r _
  · simpa [layout, Nat.add_comm, Nat.add_left_comm] using hs

/-- A test in front of others. -/
theorem test_eq_some {fails holds others : Prop} [Decidable fails] [Decidable holds] [Decidable others]
    {next : Option Bool} (hfails : fails ↔ ¬holds) (hnext : next = some (decide others)) :
    (if fails then pure false else next) = some (decide (holds ∧ others)) := by
  by_cases hholds : holds
  · simp [hfails, hholds, hnext]
  · simp [hfails, hholds]

/-- Where the length bytes are followed, the tests are those of the form. -/
theorem verdict?_layout (hr : r.length = sizeR.toNat) (hs : s.length = sizeS.toNat) :
    verdict? (layout tag length tagR sizeR r tagS sizeS s hashType) =
      some (decide ((9 ≤ r.length + s.length + 7 ∧ r.length + s.length + 7 ≤ 73) ∧ tag = 0x30 ∧
        length.toNat = 4 + r.length + s.length ∧ tagR = 0x02 ∧ Der.IsMinimal r ∧ tagS = 0x02 ∧
        Der.IsMinimal s)) := by
  have htag : (layout tag length tagR sizeR r tagS sizeS s hashType)[0]? = some tag := rfl
  have hlength : (layout tag length tagR sizeR r tagS sizeS s hashType)[1]? = some length := rfl
  have htagR : (layout tag length tagR sizeR r tagS sizeS s hashType)[2]? = some tagR := rfl
  have hinside : ¬r.length + s.length + 7 ≤ 5 + r.length := by omega
  have htotal : r.length + s.length + 7 - 3 = 4 + r.length + s.length := by omega
  unfold verdict?
  simp only [sizeR?_layout, sizeS?_layout hr, ← hr, ← hs, length_layout, getElem?_layout,
    isMinimalInteger?_layout, Option.bind_eq_bind, Option.bind_some, htag, hlength, htagR, hinside, htotal,
    ne_eq, not_true_eq_false, if_false]
  refine test_eq_some (by omega) ?_
  refine test_eq_some Iff.rfl ?_
  refine test_eq_some Iff.rfl ?_
  refine test_eq_some Iff.rfl ?_
  by_cases hminimal : Der.IsMinimal r
  · simp only [hminimal, decide_true, if_true, true_and]
    exact test_eq_some Iff.rfl rfl
  · simp [hminimal]

/-- The strict form asks for the tags, for lengths that add up and for two minimal integers. -/
theorem isStrict_layout (hr : r.length = sizeR.toNat) (hs : s.length = sizeS.toNat) :
    isStrict (layout tag length tagR sizeR r tagS sizeS s hashType) = true ↔
      r.length + s.length + 7 ≤ 73 ∧ tag = 0x30 ∧ length.toNat = 4 + r.length + s.length ∧ tagR = 0x02 ∧
        Der.IsMinimal r ∧ tagS = 0x02 ∧ Der.IsMinimal s := by
  rw [isStrict, verdict?_layout hr hs, beq_iff_eq, Option.some_inj, decide_eq_true_iff]
  constructor
  · rintro ⟨⟨-, hlength⟩, hrest⟩
    exact ⟨hlength, hrest⟩
  · rintro ⟨hlength, htag, htotal, htagR, hminimalR, htagS, hminimalS⟩
    have hpositions := Nat.add_le_add hminimalR.length_pos hminimalS.length_pos
    exact ⟨⟨by omega, hlength⟩, htag, htotal, htagR, hminimalR, htagS, hminimalS⟩

theorem Parts.toNat_sizeR (parts : Parts) : (UInt8.ofNat parts.r.length).toNat = parts.r.length := by
  have hlength := parts.length_le
  have hbyte : parts.r.length < 256 := by omega
  exact UInt8.toNat_ofNat_of_lt' hbyte

theorem Parts.toNat_sizeS (parts : Parts) : (UInt8.ofNat parts.s.length).toNat = parts.s.length := by
  have hlength := parts.length_le
  have hbyte : parts.s.length < 256 := by omega
  exact UInt8.toNat_ofNat_of_lt' hbyte

theorem Parts.isStrict_bytes (parts : Parts) : isStrict parts.bytes = true := by
  have hlength := parts.length_le
  have hbyte : 4 + parts.r.length + parts.s.length < 256 := by omega
  have htotal : (UInt8.ofNat (4 + parts.r.length + parts.s.length)).toNat =
      4 + parts.r.length + parts.s.length := UInt8.toNat_ofNat_of_lt' hbyte
  rw [bytes_eq_layout, isStrict_layout parts.toNat_sizeR.symm parts.toNat_sizeS.symm]
  exact ⟨hlength, rfl, htotal, rfl, parts.minimal_r, rfl, parts.minimal_s⟩

theorem Parts.sizeR?_bytes (parts : Parts) : sizeR? parts.bytes = some parts.r.length := by
  rw [bytes_eq_layout, sizeR?_layout, toNat_sizeR]

theorem Parts.sizeS?_bytes (parts : Parts) : sizeS? parts.bytes = some parts.s.length := by
  rw [bytes_eq_layout, sizeS?_layout parts.toNat_sizeR.symm, toNat_sizeS]

/-- The sizes that the length bytes give cut a signature into its parts. -/
theorem exists_layout_of_isStrict (h : isStrict sig = true) :
    ∃ tag length tagR sizeR r tagS sizeS s hashType, r.length = UInt8.toNat sizeR ∧
      s.length = UInt8.toNat sizeS ∧ sig = layout tag length tagR sizeR r tagS sizeS s hashType := by
  obtain ⟨h3, hlengthS, hsizes⟩ := Guarded.sizes_of_isStrict h
  -- the sizes add up to the length, so each cut leaves what the next one needs
  match sig, h3, hlengthS, hsizes with
  | tag :: length :: tagR :: sizeR :: rest, _, hlengthS, hsizes =>
    simp only [List.getElem_cons_succ, List.getElem_cons_zero, List.length_cons] at hlengthS hsizes
    obtain ⟨r, behind, rfl, hr⟩ : ∃ r behind, rest = r ++ behind ∧ r.length = sizeR.toNat :=
      ⟨rest.take sizeR.toNat, rest.drop sizeR.toNat, (List.take_append_drop _ _).symm,
        List.length_take_of_le (by omega)⟩
    rw [List.length_append] at hsizes
    match behind with
    | [] => simp at hsizes; omega
    | [_] => simp at hsizes; omega
    | tagS :: sizeS :: tail =>
      have hposition : 5 + r.length = r.length + 1 + 4 := by omega
      have hget : (tag :: length :: tagR :: sizeR :: (r ++ tagS :: sizeS :: tail))[5 + sizeR.toNat]? =
          some sizeS := by
        rw [← hr, hposition]
        simp
      rw [(List.getElem?_eq_some_iff.1 hget).2] at hsizes
      simp only [List.length_cons] at hsizes
      obtain rfl | ⟨s, hashType, htail⟩ := List.eq_nil_or_concat tail
      · simp at hsizes; omega
      · rw [List.concat_eq_append] at htail
        subst htail
        rw [List.length_append, List.length_singleton] at hsizes
        exact ⟨tag, length, tagR, sizeR, r, tagS, sizeS, s, hashType, hr, by omega, rfl⟩

/-- The strict signatures are those that can be put together from parts. -/
theorem isStrict_iff_exists_parts : isStrict sig = true ↔ ∃ parts : Parts, parts.bytes = sig := by
  constructor
  · intro h
    obtain ⟨tag, length, tagR, sizeR, r, tagS, sizeS, s, hashType, hr, hs, rfl⟩ :=
      exists_layout_of_isStrict h
    obtain ⟨hlength, rfl, htotal, rfl, hminimalR, rfl, hminimalS⟩ := (isStrict_layout hr hs).1 h
    refine ⟨⟨r, s, hashType, hminimalR, hminimalS, hlength⟩, ?_⟩
    rw [Parts.bytes_eq_layout]
    dsimp only
    rw [hr, hs, UInt8.ofNat_toNat, UInt8.ofNat_toNat, ← hr, ← hs, ← htotal, UInt8.ofNat_toNat]
  · rintro ⟨parts, rfl⟩
    exact parts.isStrict_bytes

/-- The parts can be read off the bytes. -/
theorem Parts.bytes_inj {parts other : Parts} : parts.bytes = other.bytes ↔ parts = other := by
  constructor
  · intro h
    rw [bytes_eq_layout, bytes_eq_layout] at h
    simp only [layout, List.cons_append, List.nil_append, List.cons.injEq, true_and] at h
    obtain ⟨-, hsizeR, hrest⟩ := h
    have hlengthR := congrArg UInt8.toNat hsizeR
    rw [parts.toNat_sizeR, other.toNat_sizeR] at hlengthR
    obtain ⟨hr, hrest⟩ := List.append_inj hrest hlengthR
    simp only [List.cons.injEq, true_and] at hrest
    obtain ⟨hsizeS, hrest⟩ := hrest
    have hlengthS := congrArg UInt8.toNat hsizeS
    rw [parts.toNat_sizeS, other.toNat_sizeS] at hlengthS
    obtain ⟨hs, hlast⟩ := List.append_inj hrest hlengthS
    exact Parts.ext hr hs (List.singleton_inj.1 hlast)
  · rintro rfl
    rfl

/-- No position outside is asked for. -/
theorem verdict?_eq_some (sig : Bytes) : verdict? sig = some (isStrict sig) := by
  obtain ⟨strict, hverdict, -⟩ := Guarded.exists_verdict sig
  rw [isStrict, hverdict]
  cases strict <;> rfl

/-- The strict form is a grammar. A byte string has it exactly if it is
`30 length 02 sizeR R 02 sizeS S hashType` with the length of what stands between it and the hash
type, R and S shortest and not negative, in at most 73 bytes, and then in one way only. The test
reads by position, and whatever the length bytes say, no position that it reads lies outside of
the byte string. -/
theorem isStrict_recognizes_form (sig : Bytes) :
    (isStrict sig = true ↔ ∃! parts : Parts, parts.bytes = sig) ∧
    verdict? sig = some (isStrict sig) ∧ Guarded.isStrict sig = .ok (isStrict sig) := by
  refine ⟨?_, verdict?_eq_some sig, Guarded.isStrict_eq_ok sig⟩
  rw [isStrict_iff_exists_parts]
  constructor
  · rintro ⟨parts, rfl⟩
    exact ⟨parts, rfl, fun other hsame => Parts.bytes_inj.1 hsame⟩
  · rintro ⟨parts, hparts, -⟩
    exact ⟨parts, hparts⟩

end SpendCheck.StrictDer
