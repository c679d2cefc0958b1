import Scshr.Protocol.RecordLayer

/-! Which messages the stream decoder hands out without a checked tag: exactly
those of records of a single block, which are too short to carry one. -/
namespace Scshr.Protocol

open Common Lib List

/-- The decrypted record ends with the tag of its body under a counter that the
receiver accepts at this moment. -/
def Authentic (crypto : Crypto) (layer : RecordLayer) (record : Bytes) : Prop :=
  let pt := layer.plaintext crypto record
  macLen ≤ pt.length ∧
    ∃ counter ∈ RecordLayer.counterWindow layer.decCtr,
      tag crypto counter (RecordLayer.bodyOf pt) = RecordLayer.macOf pt

variable {crypto : Crypto} {layer : RecordLayer} {record : Bytes}

theorem plaintext_length (hblock : record.length % blockLen = 0) :
    (layer.plaintext crypto record).length = record.length := by
  unfold RecordLayer.plaintext
  rw [Cbc.length_decryptBytes]
  exact Nat.dvd_of_mod_eq_zero hblock

theorem decryptMessage_short (hne : record ≠ []) (hblock : record.length % blockLen = 0)
    (hshort : record.length ≤ macLen) :
    (layer.decryptMessage crypto record).1 = some (layer.plaintext crypto record) := by
  have hlength : (layer.plaintext crypto record).length = record.length := plaintext_length hblock
  simp [RecordLayer.decryptMessage, hne, hblock, hlength, hshort]

theorem decryptMessage_authentic (hblock : record.length % blockLen = 0)
    (hlong : macLen < record.length) (h : (layer.decryptMessage crypto record).1 = some message) :
    Authentic crypto layer record := by
  have hlength : (layer.plaintext crypto record).length = record.length := plaintext_length hblock
  unfold RecordLayer.decryptMessage at h
  split at h
  · cases h
  · dsimp only at h
    rw [if_neg (by omega)] at h
    cases hmatch : RecordLayer.matchingCounter crypto layer.decCtr
        (layer.plaintext crypto record) with
    | none =>
      rw [hmatch] at h
      cases h
    | some counter =>
      constructor
      · omega
      · have htag := List.find?_some hmatch
        exact ⟨counter, mem_of_find?_eq_some hmatch, by simpa using htag⟩

theorem wireRecords_wellFormed (data : Bytes) :
    ∀ record ∈ (wireRecords data).1, record ≠ [] ∧ record.length % blockLen = 0 := by
  fun_induction wireRecords data with
  | case1 data hnext => simp
  | case2 data record rest hnext tail ih =>
    simp only [mem_cons, forall_eq_or_imp]
    exact ⟨(nextRecord_length hnext).2, ih⟩

theorem receive_authentic_iff (records : List Bytes) (layer : RecordLayer)
    (hcut : ∀ record ∈ records, record ≠ [] ∧ record.length % blockLen = 0) :
    (∀ delivery ∈ (receive crypto layer records).1,
        Authentic crypto delivery.layer delivery.record) ↔
      ∀ record ∈ records, record.length ≠ blockLen := by
  induction records generalizing layer with
  | nil => simp [receive]
  | cons record rest ih =>
    obtain ⟨⟨hne, hblock⟩, hrest⟩ := forall_mem_cons.mp hcut
    have htail := ih (layer.decryptMessage crypto record).2 hrest
    simp only [mem_cons, forall_eq_or_imp, ← htail]
    by_cases hone : record.length = blockLen
    · -- a single block is handed out as it is
      have hout : (layer.decryptMessage crypto record).1 =
          some (layer.plaintext crypto record) :=
        decryptMessage_short hne hblock (by rw [hone]; decide)
      simp only [receive, hout, mem_cons, forall_eq_or_imp, hone, ne_eq, not_true_eq_false,
        false_and, iff_false, not_and]
      rintro ⟨hlong, -⟩
      rw [plaintext_length hblock, hone] at hlong
      exact absurd hlong (by decide)
    · have hlong : macLen < record.length := by
        have hpos := length_pos_iff.mpr hne
        simp only [blockLen, macLen] at hblock hone ⊢
        omega
      cases hout : (layer.decryptMessage crypto record).1 with
      | none => simp [receive, hout, hone]
      | some message =>
        have hauthentic := decryptMessage_authentic hblock hlong hout
        simp [receive, hout, hone, hauthentic]

/-- Every message handed out has been authenticated exactly when the stream
holds no record of a single block. -/
theorem delivered_authentic_iff (crypto : Crypto) (layer : RecordLayer) (data : Bytes) :
    (∀ delivery ∈ (decryptStream crypto layer data).delivered,
        Authentic crypto delivery.layer delivery.record) ↔
      ∀ record ∈ (wireRecords data).1, record.length ≠ 16 :=
  receive_authentic_iff (wireRecords data).1 layer (wireRecords_wellFormed data)

def clearCrypto : Crypto where
  aes := id
  aesInverse := id
  aesInverse_aes _ := rfl
  sha1 bytes := Vector.ofFn fun i => bytes.getD i.val 0

def oneBlockStream : Bytes := putBe16 16 ++ List.replicate 16 0x14

theorem oneBlockStream_delivered :
    (decryptStream clearCrypto (RecordLayer.new (Vector.replicate 16 0)) oneBlockStream).out =
        [List.replicate 16 0x14] ∧
      ¬ ∀ delivery ∈ (decryptStream clearCrypto (RecordLayer.new (Vector.replicate 16 0))
          oneBlockStream).delivered, Authentic clearCrypto delivery.layer delivery.record := by
  constructor
  · decide +kernel
  · intro hall
    have hlengths := (receive_authentic_iff _ _ (wireRecords_wellFormed oneBlockStream)).mp hall
    exact absurd hlengths (by decide +kernel)

end Scshr.Protocol
