import SpendCheck.Signature.Encoding

namespace SpendCheck

namespace Flags

/-- Every bit of the first set is a bit of the second one. -/
instance : HasSubset Flags where
  Subset F G := G.contains F.bits = true

instance (F G : Flags) : Decidable (F ⊆ G) :=
  inferInstanceAs (Decidable (G.contains F.bits = true))

theorem and_eq_of_subset {F G : Flags} (h : F ⊆ G) : G.bits &&& F.bits = F.bits :=
  beq_iff_eq.1 h

theorem contains_of_subset {F G : Flags} (h : F ⊆ G) {mask : UInt32}
    (hF : F.contains mask = true) : G.contains mask = true := by
  have hmask : F.bits &&& mask = mask := beq_iff_eq.1 hF
  apply beq_iff_eq.2
  calc G.bits &&& mask
      = G.bits &&& (F.bits &&& mask) := by rw [hmask]
    _ = mask := by rw [← UInt32.and_assoc, and_eq_of_subset h, hmask]

theorem has_of_subset {F G : Flags} (h : F ⊆ G) {flag : Flag} (hF : F.has flag = true) :
    G.has flag = true :=
  contains_of_subset h hF

theorem intersects_of_subset {F G : Flags} (h : F ⊆ G) {mask : UInt32}
    (hF : F.intersects mask = true) : G.intersects mask = true := by
  apply bne_iff_ne.2
  intro hG
  apply bne_iff_ne.1 hF
  rw [← and_eq_of_subset h, UInt32.and_comm G.bits, UInt32.and_assoc, hG, UInt32.and_zero]

end Flags

/-- A signature that keeps the rules of some flags keeps those of fewer. -/
theorem checkSignatureEncoding_of_subset {F G : Flags} (h : F ⊆ G) {sig : Bytes}
    (hG : checkSignatureEncoding G sig = .ok ()) : checkSignatureEncoding F sig = .ok () := by
  rw [checkSignatureEncoding_eq_ok_iff] at hG ⊢
  obtain hempty | ⟨hstrict, hlow, htype⟩ := hG
  · exact .inl hempty
  · refine .inr ⟨fun hF => ?_, fun hF => ?_, fun hF => ?_⟩
    · exact hstrict (Flags.intersects_of_subset h hF)
    · exact hlow (Flags.has_of_subset h hF)
    · exact htype (Flags.has_of_subset h hF)

theorem checkKeyEncoding_of_subset {F G : Flags} (h : F ⊆ G) {pubkey : Bytes}
    (hG : checkKeyEncoding G pubkey = .ok ()) : checkKeyEncoding F pubkey = .ok () := by
  rw [checkKeyEncoding_eq_ok_iff] at hG ⊢
  exact fun hF => hG (Flags.has_of_subset h hF)

end SpendCheck
