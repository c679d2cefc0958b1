import Scshr.Protocol.RecordFraming

/-! Streams of records.  Cutting and decrypting a stream does not depend on how
it is split into reads, a stream of genuine records is read back message by
message, and no message is delivered for fewer bytes than its own record takes. -/
namespace Scshr.Protocol

open Common Lib List

/-! ### Splitting -/

variable {data record message : Bytes} {crypto : Crypto} {layer sender receiver : RecordLayer}
  {first second : List Bytes}

theorem nextRecord_append (more : Bytes) (h : nextRecord data = some (record, rest)) :
    nextRecord (data ++ more) = some (record, rest ++ more) := by
  unfold nextRecord at h ⊢
  split at h
  · rename_i high low tail
    dsimp only at h
    split at h
    · cases h
    · rename_i hvalid
      obtain ⟨rfl, rfl⟩ := Prod.mk.inj (Option.some_inj.mp h)
      simp only [not_or, not_not, Nat.not_lt] at hvalid
      simp only [cons_append]
      rw [if_neg, take_append_of_le_length hvalid.2.2,
        drop_append_of_le_length hvalid.2.2]
      simp only [not_or, not_not, Nat.not_lt, length_append]
      exact ⟨hvalid.1, hvalid.2.1, by omega⟩
  · cases h

theorem wireRecords_append (data more : Bytes) :
    wireRecords (data ++ more) =
      ((wireRecords data).1 ++ (wireRecords ((wireRecords data).2 ++ more)).1,
        (wireRecords ((wireRecords data).2 ++ more)).2) := by
  fun_induction wireRecords data with
  | case1 data hnext => simp
  | case2 data record rest hnext tail ih =>
    rw [wireRecords_of_next (nextRecord_append more hnext), ih]
    simp [tail]

theorem nextRecord_left (data : Bytes) : nextRecord (wireRecords data).2 = none := by
  fun_induction wireRecords data with
  | case1 data hnext => exact hnext
  | case2 data record rest hnext tail ih => exact ih

theorem receive_append (crypto : Crypto) (layer : RecordLayer) (first second : List Bytes) :
    receive crypto layer (first ++ second) =
      ((receive crypto layer first).1 ++
          (receive crypto (receive crypto layer first).2 second).1,
        (receive crypto (receive crypto layer first).2 second).2) := by
  induction first generalizing layer with
  | nil => simp [receive]
  | cons record rest ih =>
    simp only [cons_append, receive, ih]
    cases (layer.decryptMessage crypto record).1 <;> simp

theorem decryptStream_append (crypto : Crypto) (layer : RecordLayer) (data more : Bytes) :
    decryptStream crypto layer (data ++ more) =
      let first := decryptStream crypto layer data
      let second := decryptStream crypto first.layer (first.left ++ more)
      ⟨first.delivered ++ second.delivered, second.left, second.layer⟩ := by
  simp only [decryptStream, wireRecords_append data more, receive_append]

/-! ### What a message costs -/

def wireLen (message : Bytes) : Nat := 2 + (2 + message.length + padLen message.length + macLen)

def wireTotal (messages : List Bytes) : Nat := (messages.map wireLen).sum

@[simp] theorem wireTotal_nil : wireTotal [] = 0 := rfl

@[simp] theorem wireTotal_cons (message : Bytes) (rest : List Bytes) :
    wireTotal (message :: rest) = wireLen message + wireTotal rest := by
  simp [wireTotal]

@[simp] theorem wireTotal_append (first second : List Bytes) :
    wireTotal (first ++ second) = wireTotal first + wireTotal second := by
  simp [wireTotal]

theorem wireLen_le_record (hblock : record.length % blockLen = 0)
    (h : (layer.decryptMessage crypto record).1 = some message) (hlength : message.length ≠ 16) :
    wireLen message ≤ 2 + record.length := by
  have hplain : (layer.plaintext crypto record).length = record.length := plaintext_length hblock
  unfold RecordLayer.decryptMessage at h
  split at h
  · cases h
  · rename_i hvalid
    dsimp only at h
    split at h
    · rename_i hshort
      obtain rfl := Option.some_inj.mp h
      have hne : record.length ≠ 0 := fun hzero =>
        hvalid (.inl (length_eq_zero_iff.mp hzero))
      rw [hplain] at hshort hlength
      simp only [macLen, blockLen] at hshort hblock
      omega
    · split at h
      · cases h
      · split at h
        · cases h
        · rename_i hinner
          obtain rfl := Option.some_inj.mp h
          have hbody : (RecordLayer.bodyOf (layer.plaintext crypto record)).length =
              record.length - macLen := by
            simp [RecordLayer.bodyOf, hplain]
          have hle : (((layer.plaintext crypto record).drop 2).take
              (be16At (layer.plaintext crypto record) 0)).length + 22 ≤ record.length := by
            rw [hbody] at hinner
            simp only [length_take, length_drop, macLen] at hinner ⊢
            omega
          generalize ((layer.plaintext crypto record).drop 2).take
            (be16At (layer.plaintext crypto record) 0) = message at *
          simp only [wireLen, padLen, macLen, blockLen] at hblock ⊢
          omega

theorem receive_cost (records : List Bytes) (layer : RecordLayer)
    (hcut : ∀ record ∈ records, record.length % blockLen = 0)
    (hlength : ∀ delivery ∈ (receive crypto layer records).1, delivery.message.length ≠ 16) :
    wireTotal ((receive crypto layer records).1.map Delivery.message) ≤
      (records.map fun record => 2 + record.length).sum := by
  induction records generalizing layer with
  | nil => simp [receive]
  | cons record rest ih =>
    obtain ⟨hblock, hrest⟩ := forall_mem_cons.mp hcut
    have htail := ih (layer.decryptMessage crypto record).2 hrest
    simp only [receive, map_cons, sum_cons] at hlength ⊢
    cases hout : (layer.decryptMessage crypto record).1 with
    | none =>
      simp only [hout] at hlength ⊢
      have := htail hlength
      omega
    | some message =>
      simp only [hout, forall_mem_cons] at hlength ⊢
      have hone := wireLen_le_record hblock hout hlength.1
      have := htail hlength.2
      simp only [map_cons, wireTotal_cons]
      omega

theorem wireRecords_length (data : Bytes) :
    ((wireRecords data).1.map fun record => 2 + record.length).sum + (wireRecords data).2.length =
      data.length := by
  fun_induction wireRecords data with
  | case1 data hnext => simp
  | case2 data record rest hnext tail ih =>
    have hlength := (nextRecord_length hnext).1
    simp only [tail, map_cons, sum_cons]
    omega

theorem decryptStream_cost
    (hlength : ∀ message ∈ (decryptStream crypto layer data).out, message.length ≠ 16) :
    wireTotal (decryptStream crypto layer data).out +
      (decryptStream crypto layer data).left.length ≤ data.length := by
  have hcost := receive_cost (wireRecords data).1 layer
    (fun record hrecord => (wireRecords_wellFormed data record hrecord).2)
    (fun delivery hdelivery => hlength _ (mem_map_of_mem hdelivery))
  have htotal := wireRecords_length data
  simp only [decryptStream, StreamResult.out]
  omega

/-! ### Genuine streams -/

def sendAll (crypto : Crypto) (sender : RecordLayer) : List Bytes → Bytes × RecordLayer
  | [] => ([], sender)
  | message :: rest =>
      let sent := sender.encryptMessage crypto message
      let tail := sendAll crypto sent.2 rest
      (sent.1 ++ tail.1, tail.2)

/-- `TagsDiffer` for each message under its own counter. -/
def TagsAllDiffer (crypto : Crypto) (sender : RecordLayer) : List Bytes → Prop
  | [] => True
  | message :: rest =>
      TagsDiffer crypto sender.encCtr message ∧
        TagsAllDiffer crypto (sender.encryptMessage crypto message).2 rest

/-- Every message is sent below the last six counters. -/
def CountersFit (sender : RecordLayer) (messages : List Bytes) : Prop :=
  ∀ index < messages.length, sender.encCtr.toNat + index < 2 ^ 32 - 6

theorem encCtr_encryptMessage (hctr : sender.encCtr.toNat < 2 ^ 32 - 6) :
    (sender.encryptMessage crypto message).2.encCtr.toNat = sender.encCtr.toNat + 1 := by
  simp only [RecordLayer.encryptMessage, UInt32.toNat_add, UInt32.toNat_one]
  omega

theorem countersFit_cons :
    CountersFit sender (message :: rest) ↔
      sender.encCtr.toNat < 2 ^ 32 - 6 ∧
        CountersFit (sender.encryptMessage crypto message).2 rest := by
  unfold CountersFit
  constructor
  · intro h
    have hctr := h 0 (Nat.succ_pos _)
    refine ⟨hctr, fun index hindex => ?_⟩
    have hlater := h (index + 1) (Nat.succ_lt_succ hindex)
    rw [encCtr_encryptMessage hctr]
    omega
  · rintro ⟨hctr, hrest⟩ index hindex
    cases index with
    | zero => exact hctr
    | succ index =>
      have hlater := hrest index (Nat.lt_of_succ_lt_succ hindex)
      rw [encCtr_encryptMessage hctr] at hlater
      omega

theorem sendAll_append (crypto : Crypto) (sender : RecordLayer) (first second : List Bytes) :
    sendAll crypto sender (first ++ second) =
      ((sendAll crypto sender first).1 ++
          (sendAll crypto (sendAll crypto sender first).2 second).1,
        (sendAll crypto (sendAll crypto sender first).2 second).2) := by
  induction first generalizing sender with
  | nil => simp [sendAll]
  | cons message rest ih => simp [sendAll, ih]

theorem tagsAllDiffer_append :
    TagsAllDiffer crypto sender (first ++ second) ↔
      TagsAllDiffer crypto sender first ∧
        TagsAllDiffer crypto (sendAll crypto sender first).2 second := by
  induction first generalizing sender with
  | nil => simp [TagsAllDiffer, sendAll]
  | cons message rest ih => simp [TagsAllDiffer, sendAll, ih, and_assoc]

theorem encryptMessage_length (crypto : Crypto) (sender : RecordLayer) (message : Bytes) :
    (sender.encryptMessage crypto message).1.length = wireLen message := by
  rw [encryptMessage_wire, length_append, record_length, framed_length, putBe16_length]
  rfl

theorem sendAll_length (crypto : Crypto) (sender : RecordLayer) (messages : List Bytes) :
    (sendAll crypto sender messages).1.length = wireTotal messages := by
  induction messages generalizing sender with
  | nil => rfl
  | cons message rest ih => simp [sendAll, encryptMessage_length, ih]

structure Genuine (crypto : Crypto) (sender receiver : RecordLayer) (messages : List Bytes) :
    Prop where
  sync : InSync sender receiver
  size : ∀ message ∈ messages, message.length ≤ 65498
  tags : TagsAllDiffer crypto sender messages

theorem Genuine.tail (h : Genuine crypto sender receiver (message :: rest)) :
    Genuine crypto (sender.encryptMessage crypto message).2
      (sender.advance crypto receiver message) rest :=
  ⟨h.sync.advance, (forall_mem_cons.mp h.size).2, h.tags.2⟩

theorem Genuine.front (h : Genuine crypto sender receiver (first ++ second)) :
    Genuine crypto sender receiver first :=
  ⟨h.sync, (forall_mem_append.mp h.size).1, (tagsAllDiffer_append.mp h.tags).1⟩

theorem Genuine.back {next : RecordLayer}
    (h : Genuine crypto sender receiver (first ++ second))
    (hnext : InSync (sendAll crypto sender first).2 next) :
    Genuine crypto (sendAll crypto sender first).2 next second :=
  ⟨hnext, (forall_mem_append.mp h.size).2, (tagsAllDiffer_append.mp h.tags).2⟩

theorem countersFit_append :
    CountersFit sender (first ++ second) ↔
      CountersFit sender first ∧ CountersFit (sendAll crypto sender first).2 second := by
  induction first generalizing sender with
  | nil => simp [CountersFit, sendAll]
  | cons message rest ih =>
    rw [cons_append, countersFit_cons, countersFit_cons, ih, and_assoc]
    rfl

theorem decryptStream_nil (crypto : Crypto) (layer : RecordLayer) :
    decryptStream crypto layer [] = ⟨[], [], layer⟩ := by
  simp only [decryptStream, wireRecords_nil, receive]

theorem Genuine.stream_read (h : Genuine crypto sender receiver messages)
    (hfit : CountersFit sender messages) :
    (decryptStream crypto receiver (sendAll crypto sender messages).1).out = messages ∧
      InSync (sendAll crypto sender messages).2
        (decryptStream crypto receiver (sendAll crypto sender messages).1).layer := by
  induction messages generalizing sender receiver with
  | nil =>
    rw [sendAll, decryptStream_nil]
    exact ⟨rfl, h.sync⟩
  | cons message rest ih =>
    obtain ⟨hctr, hlater⟩ := countersFit_cons.mp hfit
    obtain ⟨hout, hnext⟩ := ih h.tail hlater
    simp only [sendAll, decryptStream_wire h.sync (h.size _ mem_cons_self) hctr h.tags.1]
    exact ⟨congrArg (message :: ·) hout, hnext⟩

theorem Genuine.countersFit (h : Genuine crypto sender receiver messages)
    (hlength : ∀ message ∈ (decryptStream crypto receiver
      (sendAll crypto sender messages).1).out, message.length ≠ 16)
    (hcost : wireTotal (decryptStream crypto receiver (sendAll crypto sender messages).1).out =
      wireTotal messages) : CountersFit sender messages := by
  induction messages generalizing sender receiver with
  | nil => exact fun index hindex => absurd hindex (Nat.not_lt_zero index)
  | cons message rest ih =>
    have hone := h.size _ mem_cons_self
    by_cases hctr : sender.encCtr.toNat < 2 ^ 32 - 6
    · refine countersFit_cons.mpr ⟨hctr, ih h.tail ?_ ?_⟩
      · intro other hother
        apply hlength
        simp only [sendAll, decryptStream_wire h.sync hone hctr h.tags.1]
        exact mem_cons_of_mem _ hother
      · simp only [sendAll, decryptStream_wire h.sync hone hctr h.tags.1, StreamResult.out,
          map_cons, wireTotal_cons] at hcost
        exact Nat.add_left_cancel hcost
    · -- the first record is consumed but delivers nothing
      have hnone : (receiver.decryptMessage crypto (record crypto sender message)).1 = none :=
        decryptMessage_wrapped h.sync (by omega)
      have hstream :
          (decryptStream crypto receiver (sendAll crypto sender (message :: rest)).1).out =
          (decryptStream crypto
            (receiver.decryptMessage crypto (record crypto sender message)).2
            (sendAll crypto (sender.encryptMessage crypto message).2 rest).1).out := by
        simp only [sendAll, decryptStream, wireRecords_wire hone, receive, hnone,
          StreamResult.out]
      rw [hstream] at hcost hlength
      have hbound := decryptStream_cost hlength
      rw [sendAll_length] at hbound
      have hpos : 0 < wireLen message := by
        unfold wireLen
        omega
      rw [wireTotal_cons] at hcost
      omega

theorem boundary_of_consumed (messages : List Bytes)
    (hsize : ∀ message ∈ messages, message.length ≤ 65498)
    (hwire : data ++ more = (sendAll crypto sender messages).1)
    (hleft : (wireRecords data).2 = []) :
    ∃ first second, messages = first ++ second ∧ data = (sendAll crypto sender first).1 := by
  induction messages generalizing sender data with
  | nil =>
    obtain ⟨rfl, -⟩ := append_eq_nil_iff.mp hwire
    exact ⟨[], [], rfl, rfl⟩
  | cons message rest ih =>
    obtain ⟨hone, hrest⟩ := forall_mem_cons.mp hsize
    cases hnext : nextRecord data with
    | none =>
      rw [wireRecords_of_none hnext] at hleft
      exact ⟨[], message :: rest, rfl, hleft⟩
    | some cut =>
      obtain ⟨head, tail⟩ := cut
      have happend := nextRecord_append more hnext
      rw [hwire] at happend
      simp only [sendAll, nextRecord_wire hone, Option.some_inj, Prod.mk.injEq] at happend
      obtain ⟨-, htail⟩ := happend
      have hdata : data ++ more = (sender.encryptMessage crypto message).1 ++ tail ++ more := by
        rw [hwire, append_assoc, ← htail]
        rfl
      rw [wireRecords_of_next hnext] at hleft
      obtain ⟨first, second, rfl, hfirst⟩ := ih hrest htail.symm hleft
      exact ⟨message :: first, second, rfl, by rw [append_cancel_right hdata, hfirst]; rfl⟩

/-! ### The buffer loop -/

/-- The read loop of `tcp_thread` with `tcp_buf_`: the messages handed on, and the
buffer and the cipher state behind the last read. -/
def tcpLoop (crypto : Crypto) (layer : RecordLayer) (buffer : Bytes) : List Bytes → StreamResult
  | [] => ⟨[], buffer, layer⟩
  | chunk :: rest =>
      let result := decryptStream crypto layer (buffer ++ chunk)
      let later := tcpLoop crypto result.layer result.left rest
      ⟨result.delivered ++ later.delivered, later.left, later.layer⟩

theorem tcpLoop_eq (crypto : Crypto) (chunks : List Bytes) (layer : RecordLayer)
    (buffer : Bytes) (hbuffer : nextRecord buffer = none) :
    tcpLoop crypto layer buffer chunks =
      decryptStream crypto layer (buffer ++ chunks.flatten) := by
  induction chunks generalizing layer buffer with
  | nil => simp [tcpLoop, decryptStream, wireRecords_of_none hbuffer, receive]
  | cons chunk rest ih =>
    have hleft : nextRecord (decryptStream crypto layer (buffer ++ chunk)).left = none :=
      nextRecord_left (buffer ++ chunk)
    rw [tcpLoop, ih _ _ hleft, flatten_cons, ← append_assoc,
      decryptStream_append crypto layer (buffer ++ chunk)]

/-- Genuine messages arrive whole and in order through any chunks, and whatever the bytes
are, messages and cipher state do not depend on where the stream is split. -/
theorem chunking_invisible (crypto : Crypto) :
    (∀ (sender receiver : RecordLayer) (messages chunks : List Bytes),
      InSync sender receiver → (∀ message ∈ messages, message.length ≤ 65498) →
      TagsAllDiffer crypto sender messages → CountersFit sender messages →
      chunks.flatten = (sendAll crypto sender messages).1 →
      (tcpLoop crypto receiver [] chunks).out = messages) ∧
    (∀ (layer : RecordLayer) (chunks others : List Bytes), chunks.flatten = others.flatten →
      (tcpLoop crypto layer [] chunks).out = (tcpLoop crypto layer [] others).out ∧
      (tcpLoop crypto layer [] chunks).layer = (tcpLoop crypto layer [] others).layer) := by
  have hwhole : ∀ (layer : RecordLayer) (chunks : List Bytes),
      tcpLoop crypto layer [] chunks = decryptStream crypto layer chunks.flatten :=
    fun layer chunks => tcpLoop_eq crypto chunks layer [] rfl
  constructor
  · intro sender receiver messages chunks hsync hsize htags hfit hwire
    rw [hwhole, hwire]
    exact (Genuine.stream_read ⟨hsync, hsize, htags⟩ hfit).1
  · intro layer chunks others hsame
    rw [hwhole, hwhole, hsame]
    exact ⟨rfl, rfl⟩

def freshLayer : RecordLayer := RecordLayer.new (Vector.replicate 16 0)

def threeChunks : List Bytes :=
  let wire := (sendAll clearCrypto freshLayer [[1], [2, 3]]).1
  [wire.take 1, (wire.drop 1).take 40, wire.drop 41]

theorem chunking_invisible_threeChunks :
    (tcpLoop clearCrypto freshLayer [] threeChunks).out = [[1], [2, 3]] ∧
      (tcpLoop clearCrypto freshLayer [] threeChunks).layer =
        (tcpLoop clearCrypto freshLayer [] [threeChunks.flatten]).layer := by
  constructor
  · apply (chunking_invisible clearCrypto).1 freshLayer freshLayer [[1], [2, 3]] threeChunks
    · exact ⟨rfl, rfl⟩
    · decide
    · exact ⟨by unfold TagsDiffer; decide +kernel, by unfold TagsDiffer; decide +kernel, trivial⟩
    · unfold CountersFit
      decide
    · decide +kernel
  · apply ((chunking_invisible clearCrypto).2 freshLayer threeChunks [threeChunks.flatten] _).2
    rw [flatten_singleton]

end Scshr.Protocol
