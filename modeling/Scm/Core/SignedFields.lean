import Scm.Core.Prepare

/-!
# What a signature covers — `core/src/drift/envelope.rs`, `sign`

The signature of a Drift envelope is over a hash of its fields, written one after the other. All
of them have a fixed length but the ciphertext, whose length is written in two bytes in front of
it, and the ratchet section at the end, one byte or thirty-seven. For a ciphertext of more than
65,535 bytes the two bytes hold only the remainder of its length, so that they no longer say
where it ends.

The bytes determine the fields all the same (`signedBytes_eq_iff`). Two envelopes that
are written alike and differ in the ratchet section would have ciphertexts that differ in length
by thirty-six, and then the two remainders would not be equal. A missing message number is
written as zero, so it is determined where both ratchet fields or neither are there.
-/

namespace Scm.Drift.DriftEnvelope

open List Bytes

section
variable {e e' : DriftEnvelope}

/-- The fields up to the ciphertext's length, all of them of fixed length. -/
theorem header_of_signedBytes_eq (h : e.signedBytes = e'.signedBytes) :
    { e with signature := e'.signature, ciphertext := e'.ciphertext
             ratchetDhPublic := e'.ratchetDhPublic
             ratchetMessageNumber := e'.ratchetMessageNumber } = e' ∧
      e.ciphertext.length % 65536 = e'.ciphertext.length % 65536 ∧
      e.ciphertext ++ e.ratchetSection = e'.ciphertext ++ e'.ratchetSection := by
  unfold signedBytes at h
  simp only [append_assoc, cons_append, nil_append, List.cons.injEq] at h
  obtain ⟨hversion, htype, h⟩ := h
  obtain ⟨hid, h⟩ := toList_append_inj h
  obtain ⟨hhint, h⟩ := toList_append_inj h
  obtain ⟨hcreated, h⟩ := leBytes_u32_append_inj h
  obtain ⟨hexpiry, h⟩ := leBytes_u32_append_inj h
  simp only [List.cons.injEq] at h
  obtain ⟨hhop, hpriority, h⟩ := h
  obtain ⟨hsender, h⟩ := toList_append_inj h
  obtain ⟨hephemeral, h⟩ := toList_append_inj h
  obtain ⟨hnonce, h⟩ := toList_append_inj h
  obtain ⟨hlength, h⟩ := leBytes_append_inj h
  -- the type and the compression flag share a byte, in different bits
  have hflag : e.compressed = e'.compressed := by
    rw [← typeByte_flag e, ← typeByte_flag e', htype]
  have hkind : e.envelopeType = e'.envelopeType := by grind [fromU8_typeByte]
  refine ⟨?_, hlength, h⟩
  cases e
  cases e'
  dsimp only at *
  subst hversion hkind hflag hid hhint hcreated hexpiry hhop hpriority hsender hephemeral hnonce
  rfl

theorem length_ratchetSection (e : DriftEnvelope) :
    e.ratchetSection.length = if e.ratchetDhPublic.isSome then 37 else 1 := by
  unfold ratchetSection
  cases e.ratchetDhPublic with
  | none => rfl
  | some dhPublic => simp

/-- The two remainders of the length tell where the ciphertext ends. -/
theorem ciphertext_of_append_eq
    (hlength : e.ciphertext.length % 65536 = e'.ciphertext.length % 65536)
    (h : e.ciphertext ++ e.ratchetSection = e'.ciphertext ++ e'.ratchetSection) :
    e.ciphertext = e'.ciphertext ∧ e.ratchetSection = e'.ratchetSection := by
  refine append_inj h ?_
  have htotal := congrArg List.length h
  simp only [length_append, length_ratchetSection]
    at htotal
  -- the sections differ in length by 36 or not at all
  split at htotal <;> split at htotal <;> omega

theorem ratchet_of_ratchetSection_eq (h : e.ratchetSection = e'.ratchetSection) :
    e.ratchetDhPublic = e'.ratchetDhPublic ∧
      (e.ratchetDhPublic.isSome = true →
        e.ratchetMessageNumber.getD 0 = e'.ratchetMessageNumber.getD 0) := by
  unfold ratchetSection at h
  cases hkey : e.ratchetDhPublic with
  | none => grind
  | some key =>
    cases hkey' : e'.ratchetDhPublic with
    | none => simp_all
    | some key' =>
      rw [hkey, hkey'] at h
      obtain ⟨hsame, hnumber⟩ := toList_append_inj (List.cons.inj h).2
      exact ⟨congrArg some hsame, fun _ => (leBytes_u32_append_inj hnumber).1⟩

/-- The message number, where it comes with a key and not without. -/
theorem ratchetMessageNumber_eq (hpaired : e.ratchetDhPublic.isSome = e.ratchetMessageNumber.isSome)
    (hpaired' : e'.ratchetDhPublic.isSome = e'.ratchetMessageNumber.isSome)
    (hkey : e.ratchetDhPublic = e'.ratchetDhPublic) (hnumber : e.ratchetDhPublic.isSome = true →
      e.ratchetMessageNumber.getD 0 = e'.ratchetMessageNumber.getD 0) :
    e.ratchetMessageNumber = e'.ratchetMessageNumber := by
  rw [← hkey] at hpaired'
  cases hn : e.ratchetMessageNumber with
  | none => simp_all
  | some n => grind [Option.isSome_iff_exists]

end

/-- **The signed bytes determine the envelope.** Of two envelopes whose ratchet fields are both
there or both missing, with ciphertexts of any length, the bytes that are signed are equal
exactly when the envelopes agree in every field but the signature. -/
theorem signedBytes_eq_iff (e e' : DriftEnvelope)
    (hpaired : e.ratchetDhPublic.isSome = e.ratchetMessageNumber.isSome)
    (hpaired' : e'.ratchetDhPublic.isSome = e'.ratchetMessageNumber.isSome) :
    e.signedBytes = e'.signedBytes ↔ { e with signature := e'.signature } = e' := by
  constructor
  · intro h
    obtain ⟨hheader, hlength, htail⟩ := header_of_signedBytes_eq h
    obtain ⟨hciphertext, hratchet⟩ := ciphertext_of_append_eq hlength htail
    obtain ⟨hkey, hnumber⟩ := ratchet_of_ratchetSection_eq hratchet
    have hmessage := ratchetMessageNumber_eq hpaired hpaired' hkey hnumber
    rw [← hciphertext, ← hkey, ← hmessage] at hheader
    exact hheader
  · intro h
    rw [← h]
    rfl

/-- A relay that counts a hop leaves other bytes than those that were signed. -/
theorem signedBytes_eq_iff_hop :
    sampleEnvelope.signedBytes ≠ sampleEnvelope.incrementHop.signedBytes := by
  intro h
  have hsame := (signedBytes_eq_iff sampleEnvelope sampleEnvelope.incrementHop rfl rfl).mp h
  exact absurd (congrArg DriftEnvelope.hopCount hsame) (by decide)

end Scm.Drift.DriftEnvelope
