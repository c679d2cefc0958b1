import Scshr.Protocol.RecordAuthenticity

/-! Round trip of one record between layers in step, and the sizes for which
the two sixteen-bit length fields are the true lengths. -/
namespace Scshr.Protocol

open Common Lib List

def InSync (sender receiver : RecordLayer) : Prop :=
  receiver.decChain = sender.encChain ∧ receiver.decCtr = sender.encCtr

/-- The tag of a message under its counter is not that under the counter before. -/
def TagsDiffer (crypto : Crypto) (counter : UInt32) (pt : Bytes) : Prop :=
  0 < counter → tag crypto (counter - 1) (framedBody pt) ≠ tag crypto counter (framedBody pt)

variable (crypto : Crypto) (counter : UInt32)

@[simp] theorem tag_length (body : Bytes) : (tag crypto counter body).length = macLen := by
  simp [tag, macLen]

theorem framedBody_length (pt : Bytes) :
    (framedBody pt).length = 2 + pt.length + padLen pt.length := by
  simp [framedBody]
  omega

theorem framed_length (pt : Bytes) :
    (framed crypto counter pt).length = 2 + pt.length + padLen pt.length + macLen := by
  simp [framed, framedBody_length]

theorem framed_length_mod (pt : Bytes) : (framed crypto counter pt).length % blockLen = 0 := by
  rw [framed_length]
  simp only [padLen, macLen, blockLen]
  omega

/-- The wire field holds the framed length exactly up to 65498 bytes of plaintext. -/
theorem framed_length_lt_iff (pt : Bytes) :
    (framed crypto counter pt).length < 2 ^ 16 ↔ pt.length ≤ 65498 := by
  rw [framed_length]
  simp only [padLen, macLen, blockLen]
  omega

theorem be16At_framed (pt : Bytes) : be16At (framed crypto counter pt) 0 = pt.length % 2 ^ 16 := by
  simp only [framed, framedBody, append_assoc]
  exact be16At_putBe16 _ _

theorem bodyOf_framed (pt : Bytes) :
    RecordLayer.bodyOf (framed crypto counter pt) = framedBody pt := by
  simp [RecordLayer.bodyOf, framed]

theorem macOf_framed (pt : Bytes) :
    RecordLayer.macOf (framed crypto counter pt) = tag crypto counter (framedBody pt) := by
  simp [RecordLayer.macOf, framed]

theorem inner_framed (pt : Bytes) : ((framed crypto counter pt).drop 2).take pt.length = pt := by
  simp only [framed, framedBody, putBe16, cons_append, nil_append, append_assoc,
    drop_succ_cons, drop_zero, take_left']

theorem counterWindow_eq {counter : UInt32} (h : counter.toNat < 2 ^ 32 - 6) :
    ∃ later, RecordLayer.counterWindow counter =
      (if 0 < counter then [counter - 1] else []) ++ counter :: later := by
  have hhi : (counter + decryptCounterWindow).toNat = counter.toNat + 6 := by
    rw [UInt32.toNat_add]
    simp only [decryptCounterWindow, UInt32.reduceToNat]
    omega
  unfold RecordLayer.counterWindow
  dsimp only
  rw [hhi]
  by_cases hpos : 0 < counter
  · have hlo : (counter - 1).toNat + 1 = counter.toNat := by
      rw [UInt32.lt_iff_toNat_lt] at hpos
      simp only [UInt32.toNat_zero] at hpos
      rw [UInt32.toNat_sub]
      simp only [UInt32.toNat_one]
      have := counter.toNat_lt
      omega
    rw [if_pos hpos, if_pos hpos, show counter.toNat + 6 - (counter - 1).toNat = 7 by omega,
      List.range'_succ, List.range'_succ, hlo]
    simp
  · have hzero : counter = 0 := by
      rw [UInt32.lt_iff_toNat_lt] at hpos
      simp only [UInt32.toNat_zero] at hpos
      rw [← UInt32.toNat_inj]
      simp only [UInt32.toNat_zero]
      omega
    subst hzero
    exact ⟨_, rfl⟩

theorem counterWindow_wrapped {counter : UInt32} (h : 2 ^ 32 - 6 ≤ counter.toNat) :
    RecordLayer.counterWindow counter = [] := by
  have hlt := counter.toNat_lt
  have hpos : 0 < counter := by
    rw [UInt32.lt_iff_toNat_lt]
    simp only [UInt32.toNat_zero]
    omega
  have hlo : (counter - 1).toNat = counter.toNat - 1 := by
    rw [UInt32.toNat_sub]
    simp only [UInt32.toNat_one]
    omega
  have hhi : (counter + decryptCounterWindow).toNat = counter.toNat + 6 - 2 ^ 32 := by
    rw [UInt32.toNat_add]
    simp only [decryptCounterWindow, UInt32.reduceToNat]
    omega
  unfold RecordLayer.counterWindow
  dsimp only
  rw [if_pos hpos, hlo, hhi, show counter.toNat + 6 - 2 ^ 32 - (counter.toNat - 1) = 0 by omega]
  rfl

theorem matchingCounter_framed {counter : UInt32} {crypto : Crypto} {pt : Bytes}
    (hctr : counter.toNat < 2 ^ 32 - 6) (htags : TagsDiffer crypto counter pt) :
    RecordLayer.matchingCounter crypto counter (framed crypto counter pt) = some counter := by
  obtain ⟨later, hwindow⟩ := counterWindow_eq hctr
  unfold RecordLayer.matchingCounter
  rw [bodyOf_framed, macOf_framed, hwindow]
  by_cases hpos : 0 < counter
  · simp [hpos, htags hpos]
  · simp [hpos]

def record (crypto : Crypto) (sender : RecordLayer) (pt : Bytes) : Bytes :=
  (Cbc.encryptBytes crypto.cipher sender.encChain (framed crypto sender.encCtr pt)).1

def RecordLayer.advance (crypto : Crypto) (sender receiver : RecordLayer) (pt : Bytes) :
    RecordLayer :=
  { receiver with
    decChain := (sender.encryptMessage crypto pt).2.encChain
    decCtr := receiver.decCtr + 1 }

theorem nextRecord_putBe16 {record : Bytes} (hblock : record.length % blockLen = 0)
    (hpos : 0 < record.length) (hfits : record.length < 2 ^ 16) (rest : Bytes) :
    nextRecord (putBe16 record.length ++ record ++ rest) = some (record, rest) := by
  unfold nextRecord putBe16
  simp only [cons_append, nil_append]
  rw [be16_ofNat, Nat.mod_eq_of_lt hfits, if_neg, take_left, drop_left]
  simp only [not_or, length_append]
  omega

/-- What a record of the stream can be: whole cipher blocks under a sixteen-bit length. -/
structure WellFormed (record : Bytes) : Prop where
  nonempty : record ≠ []
  blocks : record.length % blockLen = 0
  fits : record.length ≤ 65535

def wire (records : List Bytes) : Bytes :=
  records.flatMap fun record => putBe16 record.length ++ record

theorem wireRecords_wire_append {records : List Bytes}
    (hformed : ∀ record ∈ records, WellFormed record) (rest : Bytes) :
    wireRecords (wire records ++ rest) =
      (records ++ (wireRecords rest).1, (wireRecords rest).2) := by
  induction records with
  | nil => rfl
  | cons record records ih =>
    rw [forall_mem_cons] at hformed
    have hnext := nextRecord_putBe16 hformed.1.blocks (length_pos_iff.mpr hformed.1.nonempty)
      (Nat.lt_succ_of_le hformed.1.fits) (wire records ++ rest)
    have hbytes : wire (record :: records) ++ rest =
        putBe16 record.length ++ record ++ (wire records ++ rest) := by
      rw [wire, flatMap_cons, append_assoc]
      rfl
    rw [hbytes, wireRecords_of_next hnext, ih hformed.2]
    rfl

section

variable {crypto : Crypto} {sender receiver : RecordLayer} {pt : Bytes}

theorem encryptMessage_wire :
    (sender.encryptMessage crypto pt).1 =
      putBe16 (framed crypto sender.encCtr pt).length ++ record crypto sender pt :=
  rfl

theorem framed_dvd : blockLen ∣ (framed crypto sender.encCtr pt).length :=
  Nat.dvd_of_mod_eq_zero (framed_length_mod crypto sender.encCtr pt)

theorem record_length :
    (record crypto sender pt).length = (framed crypto sender.encCtr pt).length :=
  Cbc.length_encryptBytes _ _ _ framed_dvd

theorem record_length_mod (crypto : Crypto) (sender : RecordLayer) (pt : Bytes) :
    (record crypto sender pt).length % blockLen = 0 := by
  rw [record_length, framed_length_mod]

theorem record_long (crypto : Crypto) (sender : RecordLayer) (pt : Bytes) :
    macLen < (record crypto sender pt).length := by
  rw [record_length, framed_length]
  omega

theorem InSync.advance (h : InSync sender receiver) :
    InSync (sender.encryptMessage crypto pt).2 (sender.advance crypto receiver pt) :=
  ⟨rfl, congrArg (· + 1) h.2⟩

theorem plaintext_record (h : InSync sender receiver) :
    Cbc.decryptBytes crypto.cipher receiver.decChain (record crypto sender pt) =
      (framed crypto sender.encCtr pt, (sender.encryptMessage crypto pt).2.encChain) := by
  rw [h.1]
  exact Cbc.decryptBytes_encryptBytes _ (by decide) _ _ framed_dvd

/-- A record that decrypts to what was sent is delivered, whatever it looks like. -/
theorem decryptMessage_genuine (hctr : receiver.decCtr = sender.encCtr) (hsize : pt.length < 2 ^ 16)
    (hlimit : sender.encCtr.toNat < 2 ^ 32 - 6) (htags : TagsDiffer crypto sender.encCtr pt)
    {ct : Bytes} (hne : ct ≠ []) (hblock : ct.length % blockLen = 0)
    (htext : receiver.plaintext crypto ct = framed crypto sender.encCtr pt) :
    receiver.decryptMessage crypto ct =
      (some pt,
        { receiver with
          decChain := (Cbc.decryptBytes crypto.cipher receiver.decChain ct).2
          decCtr := receiver.decCtr + 1 }) := by
  have hlong : macLen < (framed crypto sender.encCtr pt).length := by
    rw [← record_length]
    exact record_long crypto sender pt
  have hinner : ¬ 2 + pt.length > (framedBody pt).length := by
    rw [framedBody_length]
    omega
  unfold RecordLayer.decryptMessage
  rw [if_neg (by simp [hne, hblock]), htext, hctr]
  dsimp only
  rw [if_neg (by omega), matchingCounter_framed hlimit htags]
  dsimp only
  rw [be16At_framed, Nat.mod_eq_of_lt hsize, bodyOf_framed, if_neg hinner, inner_framed]

theorem decryptMessage_record (h : InSync sender receiver) (hsize : pt.length < 2 ^ 16)
    (hctr : sender.encCtr.toNat < 2 ^ 32 - 6) (htags : TagsDiffer crypto sender.encCtr pt) :
    receiver.decryptMessage crypto (record crypto sender pt) =
      (some pt, sender.advance crypto receiver pt) := by
  have hne : record crypto sender pt ≠ [] :=
    ne_nil_of_length_pos (Nat.zero_lt_of_lt (record_long crypto sender pt))
  rw [decryptMessage_genuine h.2 hsize hctr htags hne (record_length_mod crypto sender pt)
    (congrArg Prod.fst (plaintext_record h)), plaintext_record h]
  rfl

theorem decryptMessage_wrapped (h : InSync sender receiver)
    (hctr : 2 ^ 32 - 6 ≤ sender.encCtr.toNat) :
    (receiver.decryptMessage crypto (record crypto sender pt)).1 = none := by
  have hlong := record_long crypto sender pt
  have hplain : receiver.plaintext crypto (record crypto sender pt) =
      framed crypto sender.encCtr pt := congrArg Prod.fst (plaintext_record h)
  have hnone : RecordLayer.matchingCounter crypto receiver.decCtr
      (framed crypto sender.encCtr pt) = none := by
    unfold RecordLayer.matchingCounter
    rw [h.2, counterWindow_wrapped hctr]
    rfl
  rw [record_length] at hlong
  unfold RecordLayer.decryptMessage
  split
  · rfl
  · rw [hplain]
    dsimp only
    rw [if_neg (by omega), hnone]

theorem nextRecord_wire (hsize : pt.length ≤ 65498) (rest : Bytes) :
    nextRecord ((sender.encryptMessage crypto pt).1 ++ rest) =
      some (record crypto sender pt, rest) := by
  have hfield := (framed_length_lt_iff crypto sender.encCtr pt).mpr hsize
  rw [encryptMessage_wire, ← record_length] at *
  exact nextRecord_putBe16 (record_length_mod crypto sender pt)
    (Nat.zero_lt_of_lt (record_long crypto sender pt)) hfield rest

theorem wireRecords_wire (hsize : pt.length ≤ 65498) (rest : Bytes) :
    wireRecords ((sender.encryptMessage crypto pt).1 ++ rest) =
      (record crypto sender pt :: (wireRecords rest).1, (wireRecords rest).2) :=
  wireRecords_of_next (nextRecord_wire hsize rest)

theorem decryptStream_wire (h : InSync sender receiver) (hsize : pt.length ≤ 65498)
    (hctr : sender.encCtr.toNat < 2 ^ 32 - 6) (htags : TagsDiffer crypto sender.encCtr pt)
    (rest : Bytes) :
    decryptStream crypto receiver ((sender.encryptMessage crypto pt).1 ++ rest) =
      let next := decryptStream crypto (sender.advance crypto receiver pt) rest
      { next with
        delivered := ⟨receiver, record crypto sender pt, pt⟩ :: next.delivered } := by
  have hmessage := decryptMessage_record h (by omega) hctr htags
  simp only [decryptStream, wireRecords_wire hsize, receive, hmessage]

/-- Both length fields are true, and a peer in step reads exactly this message
and stays in step. -/
structure FramesExactly (crypto : Crypto) (sender receiver : RecordLayer) (pt : Bytes) : Prop where
  plainField : be16At (framed crypto sender.encCtr pt) 0 = pt.length
  wireField : be16At (sender.encryptMessage crypto pt).1 0 = (record crypto sender pt).length
  delivered : (decryptStream crypto receiver (sender.encryptMessage crypto pt).1).out = [pt]
  consumed : (decryptStream crypto receiver (sender.encryptMessage crypto pt).1).left = []
  inSync : InSync (sender.encryptMessage crypto pt).2
    (decryptStream crypto receiver (sender.encryptMessage crypto pt).1).layer

theorem FramesExactly.size (h : FramesExactly crypto sender receiver pt) : pt.length ≤ 65498 := by
  have hfield := h.wireField
  rw [encryptMessage_wire, be16At_putBe16, record_length] at hfield
  rw [← framed_length_lt_iff crypto sender.encCtr pt, ← hfield]
  exact Nat.mod_lt _ (by decide)

theorem wireRecords_nil : wireRecords [] = ([], []) := wireRecords_of_none rfl

theorem framesExactly_iff (hsync : InSync sender receiver)
    (htags : TagsDiffer crypto sender.encCtr pt) :
    FramesExactly crypto sender receiver pt ↔
      pt.length ≤ 65498 ∧ sender.encCtr.toNat < 2 ^ 32 - 6 := by
  constructor
  · intro h
    have hsize := h.size
    refine ⟨hsize, ?_⟩
    by_contra hctr
    have hout := h.delivered
    have hrecords : wireRecords (sender.encryptMessage crypto pt).1 =
        ([record crypto sender pt], []) := by
      rw [← append_nil (sender.encryptMessage crypto pt).1, wireRecords_wire hsize,
        wireRecords_nil]
    have hnone : (receiver.decryptMessage crypto (record crypto sender pt)).1 = none :=
      decryptMessage_wrapped hsync (by omega)
    simp [StreamResult.out, decryptStream, hrecords, receive, hnone] at hout
  · rintro ⟨hsize, hctr⟩
    have hstream := decryptStream_wire hsync hsize hctr htags []
    rw [append_nil] at hstream
    have hempty : decryptStream crypto (sender.advance crypto receiver pt) [] =
        ⟨[], [], sender.advance crypto receiver pt⟩ := by
      unfold decryptStream
      rw [wireRecords_nil]
      rfl
    rw [hempty] at hstream
    have hfield := (framed_length_lt_iff crypto sender.encCtr pt).mpr hsize
    constructor
    · rw [be16At_framed, Nat.mod_eq_of_lt (by omega)]
    · rw [encryptMessage_wire, be16At_putBe16, record_length, Nat.mod_eq_of_lt hfield]
    · rw [hstream]
      rfl
    · rw [hstream]
    · rw [hstream]
      exact hsync.advance

end

end Scshr.Protocol
