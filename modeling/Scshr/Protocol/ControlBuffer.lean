import Scshr.Protocol.RecordStream

/-! The size of `tcp_buf_`.  The parser waits for the rest of a record of at most 65535 bytes;
at a length field that no record can have it stops for good, and every later read is kept. -/
namespace Scshr.Protocol

open Common List

def BadHeader (data : Bytes) : Prop :=
  ∃ high low tail, data = high :: low :: tail ∧
    (be16 high low = 0 ∨ be16 high low % blockLen ≠ 0)

/-! ## Cutting -/

variable {data : Bytes}

theorem nextRecord_eq_some {record rest : Bytes} (next : nextRecord data = some (record, rest)) :
    WellFormed record ∧ data = putBe16 record.length ++ record ++ rest := by
  obtain ⟨-, nonempty, blocks⟩ := nextRecord_length next
  unfold nextRecord at next
  split at next
  next high low tail =>
    dsimp only at next
    split at next
    next => cases next
    next valid =>
      simp only [not_or, Nat.not_lt] at valid
      obtain ⟨rfl, rfl⟩ := Prod.mk.inj (Option.some_inj.mp next)
      have length : (tail.take (be16 high low)).length = be16 high low :=
        length_take_of_le valid.2.2
      have highSmall := high.toNat_lt
      have lowSmall := low.toNat_lt
      have field : putBe16 (be16 high low) = [high, low] := by
        unfold putBe16 be16
        have first : (high.toNat * 256 + low.toNat) / 256 = high.toNat := by omega
        have second : UInt8.ofNat (high.toNat * 256 + low.toNat) = low := by
          apply UInt8.toNat_inj.mp
          rw [UInt8.toNat_ofNat']
          omega
        rw [first, second, UInt8.ofNat_toNat]
      refine ⟨⟨nonempty, blocks, ?_⟩, ?_⟩
      · rw [length]
        unfold be16
        omega
      · rw [length, field, append_assoc, take_append_drop]
        rfl
  next => cases next

theorem wireRecords_framed (data : Bytes) :
    (∀ record ∈ (wireRecords data).1, WellFormed record) ∧
      data = wire (wireRecords data).1 ++ (wireRecords data).2 := by
  fun_induction wireRecords data with
  | case1 data none => exact ⟨fun record absent => absurd absent not_mem_nil, rfl⟩
  | case2 data record rest next tail ih =>
    obtain ⟨wellFormed, bytes⟩ := nextRecord_eq_some next
    refine ⟨forall_mem_cons.mpr ⟨wellFormed, ih.1⟩, ?_⟩
    rw [wire, flatMap_cons, append_assoc]
    rw [bytes]
    exact congrArg (putBe16 record.length ++ record ++ ·) ih.2

theorem BadHeader.append (bad : BadHeader data) (more : Bytes) : BadHeader (data ++ more) := by
  obtain ⟨high, low, tail, rfl, field⟩ := bad
  exact ⟨high, low, tail ++ more, rfl, field⟩

theorem BadHeader.nextRecord (bad : BadHeader data) : nextRecord data = none := by
  obtain ⟨high, low, tail, rfl, field⟩ := bad
  have stop : be16 high low = 0 ∨ be16 high low % blockLen ≠ 0 ∨ tail.length < be16 high low :=
    field.imp_right .inl
  exact if_pos stop

theorem length_left (waits : nextRecord data = none) (good : ¬ BadHeader data) :
    data.length < 2 + 65535 := by
  cases data with
  | nil => exact Nat.succ_pos _
  | cons high data =>
    cases data with
    | nil => exact Nat.lt_of_sub_pos (by decide : 0 < 2 + 65535 - 1)
    | cons low rest =>
      unfold nextRecord at waits
      dsimp only at waits
      split at waits
      next stop =>
        have short : rest.length < be16 high low := by
          rcases stop with zero | ragged | short
          · exact absurd ⟨high, low, rest, rfl, .inl zero⟩ good
          · exact absurd ⟨high, low, rest, rfl, .inr ragged⟩ good
          · exact short
        have highSmall := high.toNat_lt
        have lowSmall := low.toNat_lt
        unfold be16 at short
        rw [length_cons, length_cons]
        omega
      next => cases waits

/-! ## The read loop -/

theorem tcpLoop_left (crypto : Crypto) (layer : RecordLayer) (chunks : List Bytes) :
    (tcpLoop crypto layer [] chunks).left = (wireRecords chunks.flatten).2 := by
  rw [tcpLoop_eq crypto chunks layer [] rfl]
  rfl

/-- The buffer stays below the size of the longest record after every read exactly when fewer
than that many bytes follow the records up to a bad header, if the stream has one. -/
theorem tcpBuf_bounded_iff (crypto : Crypto) (layer : RecordLayer) (chunks : List Bytes) :
    (∀ reads, reads <+: chunks → (tcpLoop crypto layer [] reads).left.length < 2 + 65535) ↔
      ∀ records rest, (∀ record ∈ records, WellFormed record) →
        chunks.flatten = wire records ++ rest → BadHeader rest →
        rest.length < 2 + 65535 := by
  constructor
  · intro bounded records rest wellFormed stream bad
    have whole := bounded chunks (prefix_refl chunks)
    rw [tcpLoop_left, stream, wireRecords_wire_append wellFormed,
      wireRecords_of_none bad.nextRecord] at whole
    exact whole
  · rintro good reads ⟨later, rfl⟩
    rw [tcpLoop_left]
    obtain ⟨wellFormed, stream⟩ := wireRecords_framed reads.flatten
    by_cases bad : BadHeader (wireRecords reads.flatten).2
    · have short := good (wireRecords reads.flatten).1
        ((wireRecords reads.flatten).2 ++ later.flatten) wellFormed
        (by rw [← append_assoc, ← stream, flatten_append]) (bad.append _)
      rw [length_append] at short
      omega
    · exact length_left (nextRecord_left reads.flatten) bad

/-- A read of zeros and one more byte: the first two bytes say that an empty record follows,
and nothing is ever taken out of the buffer again. -/
theorem tcpBuf_grows :
    (∀ chunk ∈ [List.replicate 65536 0, [0]], (chunk : Bytes).length ≤ 65536) ∧
      (tcpLoop clearCrypto freshLayer [] [List.replicate 65536 0, [0]]).left.length =
        2 + 65535 := by
  constructor
  · intro chunk read
    rcases mem_cons.mp read with rfl | last
    · rw [length_replicate]
    · rw [mem_singleton.mp last]
      decide
  · have zeros : [List.replicate 65536 0, [0]].flatten = (List.replicate 65537 0 : Bytes) := by
      rw [flatten_cons, flatten_singleton, ← replicate_succ']
    have bad : BadHeader (List.replicate 65537 0) :=
      ⟨0, 0, List.replicate 65535 0, by rw [replicate_succ, replicate_succ], .inl rfl⟩
    rw [tcpLoop_left, zeros, wireRecords_of_none bad.nextRecord, length_replicate]

end Scshr.Protocol
