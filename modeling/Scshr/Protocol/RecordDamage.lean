import Scshr.Protocol.RecordStream
import Mathlib.Data.Bool.AllAny
import Mathlib.Data.List.Forall2

/-! Damage on the way.  A modified record and its successor are lost, the chaining
block and the counter recover behind them, so that every other record of the
stream is still delivered.  The exception is a successor that was encrypted anew
behind the modified block. -/
namespace Scshr.Protocol

open Common Lib List

def records (crypto : Crypto) (sender : RecordLayer) : List Bytes → List Bytes
  | [] => []
  | message :: rest =>
      record crypto sender message :: records crypto (sender.encryptMessage crypto message).2 rest

variable {messages received : List Bytes}

theorem records_length (crypto : Crypto) (sender : RecordLayer) (messages : List Bytes) :
    (records crypto sender messages).length = messages.length := by
  induction messages generalizing sender with
  | nil => rfl
  | cons message rest ih => rw [records, length_cons, ih, length_cons]

theorem sendAll_eq_wire (crypto : Crypto) (sender : RecordLayer) (messages : List Bytes) :
    (sendAll crypto sender messages).1 = wire (records crypto sender messages) := by
  induction messages generalizing sender with
  | nil => rfl
  | cons message rest ih =>
    have hfirst : (sender.encryptMessage crypto message).1 =
        putBe16 (record crypto sender message).length ++ record crypto sender message := by
      rw [encryptMessage_wire, record_length]
    rw [sendAll, ih, hfirst]
    rfl

/-- What the lengths of a genuine record promise, modified or not. -/
structure WellSized (record : Bytes) : Prop extends WellFormed record where
  long : macLen < record.length

theorem wellSized_record (crypto : Crypto) (sender : RecordLayer) (hsize : message.length ≤ 65498) :
    WellSized (record crypto sender message) := by
  have hlong := record_long crypto sender message
  refine ⟨⟨?_, record_length_mod crypto sender message, ?_⟩, hlong⟩
  · exact ne_nil_of_length_pos (Nat.zero_lt_of_lt hlong)
  · rw [record_length]
    exact Nat.le_of_lt_succ ((framed_length_lt_iff crypto sender.encCtr message).mpr hsize)

theorem wellSized_records (crypto : Crypto) (sender : RecordLayer)
    (hsize : ∀ message ∈ messages, message.length ≤ 65498) :
    ∀ record ∈ records crypto sender messages, WellSized record := by
  induction messages generalizing sender with
  | nil => simp [records]
  | cons message rest ih =>
    rw [forall_mem_cons] at hsize
    rw [records, forall_mem_cons]
    exact ⟨wellSized_record crypto sender hsize.1, ih _ hsize.2⟩

def SameLengths (sent received : List Bytes) : Prop :=
  List.Forall₂ (fun sent received => received.length = sent.length) sent received

theorem SameLengths.wellSized (h : SameLengths sent received)
    (hsent : ∀ record ∈ sent, WellSized record) : ∀ record ∈ received, WellSized record := by
  induction h with
  | nil => simp
  | cons hlength _ ih =>
    rw [forall_mem_cons] at hsent ⊢
    refine ⟨⟨⟨?_, hlength ▸ hsent.1.blocks, hlength ▸ hsent.1.fits⟩, hlength ▸ hsent.1.long⟩,
      ih hsent.2⟩
    apply ne_nil_of_length_pos
    rw [hlength]
    exact Nat.zero_lt_of_lt hsent.1.long

def LastIntact (sent received : Bytes) : Prop :=
  Cbc.lastBlock blockLen received = Cbc.lastBlock blockLen sent

instance (sent received : Bytes) : Decidable (LastIntact sent received) :=
  inferInstanceAs (Decidable (_ = _))

/-- The messages of the unmodified records whose predecessor's last block is unmodified, and
of those that are modified like that block so that they decrypt to what was sent; `chained`
says whether the block in front of the first record, `chain`, is the sender's. -/
def survivors (crypto : Crypto) :
    RecordLayer → Bool → Block → List Bytes → List Bytes → List Bytes
  | sender, chained, chain, message :: messages, received :: receiveds =>
      let sent := record crypto sender message
      let text := Cbc.decryptBytes crypto.cipher chain received
      (if chained ∧ received = sent ∨
          ¬chained ∧ received ≠ sent ∧ text.1 = framed crypto sender.encCtr message
        then [message] else []) ++
        survivors crypto (sender.encryptMessage crypto message).2 (LastIntact sent received)
          text.2 messages receiveds
  | _, _, _, _, _ => []

/-- A decrypted body and tag that are not the sent ones match under no counter tried. -/
def NoForgery (crypto : Crypto) : Block → UInt32 → List Bytes → List Bytes → Prop
  | chain, counter, message :: messages, received :: receiveds =>
      let text := Cbc.decryptBytes crypto.cipher chain received
      (text.1 ≠ framed crypto counter message →
        ∀ candidate ∈ RecordLayer.counterWindow counter,
          tag crypto candidate (RecordLayer.bodyOf text.1) ≠ RecordLayer.macOf text.1) ∧
      NoForgery crypto text.2 (counter + 1) messages receiveds
  | _, _, _, _ => True

section

variable {crypto : Crypto} {sender receiver : RecordLayer} {message received : Bytes}
  {chain : Block}

theorem WellSized.dvd (h : WellSized received) : blockLen ∣ received.length :=
  Nat.dvd_of_mod_eq_zero h.blocks

theorem xorBlock_injective (block : Block) : Function.Injective (xorBlock block) := by
  intro left right hsame
  apply Vector.ext
  intro i hi
  have hbyte := congrArg (fun masked : Block => block[i] ^^^ masked[i]) hsame
  simpa [xorBlock, ← UInt8.xor_assoc] using hbyte

theorem decryptBytes_record (crypto : Crypto) (sender : RecordLayer) (message : Bytes) :
    Cbc.decryptBytes crypto.cipher sender.encChain (record crypto sender message) =
      (framed crypto sender.encCtr message, (sender.encryptMessage crypto message).2.encChain) :=
  Cbc.decryptBytes_encryptBytes crypto.cipher (by decide) sender.encChain
    (framed crypto sender.encCtr message) framed_dvd

/-- Damage to a record or to the block in front of it changes what it decrypts to, unless the
one makes up for the other. -/
theorem plaintext_genuine_iff (haes : ∀ block, crypto.aes (crypto.aesInverse block) = block)
    (hsized : WellSized received) :
    (Cbc.decryptBytes crypto.cipher chain received).1 = framed crypto sender.encCtr message ↔
      chain = sender.encChain ∧ received = record crypto sender message ∨
        ¬chain = sender.encChain ∧ received ≠ record crypto sender message ∧
          (Cbc.decryptBytes crypto.cipher chain received).1 =
            framed crypto sender.encCtr message := by
  have hinverse : Function.Injective crypto.cipher.dec := Function.LeftInverse.injective haes
  have hsent := congrArg Prod.fst (decryptBytes_record crypto sender message)
  constructor
  · intro htext
    by_cases hchain : chain = sender.encChain
    · have hdvd : blockLen ∣ (record crypto sender message).length :=
        Nat.dvd_of_mod_eq_zero (record_length_mod crypto sender message)
      rw [hchain] at htext
      exact .inl ⟨hchain, Cbc.decryptBytes_inj (by decide) hinverse hsized.dvd hdvd
        (htext.trans hsent.symm)⟩
    · refine .inr ⟨hchain, ?_, htext⟩
      intro hsame
      rw [hsame] at htext hsized
      exact hchain (Cbc.chain_eq_of_decryptBytes (by decide) xorBlock_injective hsized.dvd
        hsized.nonempty (htext.trans hsent.symm))
  · rintro (⟨rfl, rfl⟩ | ⟨-, -, htext⟩)
    · exact hsent
    · exact htext

theorem lastIntact_iff (hsized : WellSized received)
    (hsent : WellSized (record crypto sender message)) (chain : Block) :
    LastIntact (record crypto sender message) received ↔
      (Cbc.decryptBytes crypto.cipher chain received).2 =
        (sender.encryptMessage crypto message).2.encChain := by
  have hgenuine :
      (Cbc.decryptBytes crypto.cipher sender.encChain (record crypto sender message)).2 =
        (sender.encryptMessage crypto message).2.encChain :=
    (Prod.ext_iff.mp (decryptBytes_record crypto sender message)).2
  rw [← hgenuine, ← Vector.toList_inj,
    Cbc.decryptBytes_snd crypto.cipher _ hsized.dvd hsized.nonempty,
    Cbc.decryptBytes_snd crypto.cipher _ hsent.dvd hsent.nonempty]
  rfl

theorem decryptMessage_unmatched (hsized : WellSized received)
    (hmatch : RecordLayer.matchingCounter crypto receiver.decCtr
      (receiver.plaintext crypto received) = none) :
    receiver.decryptMessage crypto received =
      (none,
        { receiver with
          decChain := (Cbc.decryptBytes crypto.cipher receiver.decChain received).2
          decCtr := receiver.decCtr + 1 }) := by
  have hlength : (receiver.plaintext crypto received).length = received.length :=
    plaintext_length hsized.blocks
  have hlong := hsized.long
  unfold RecordLayer.decryptMessage
  rw [if_neg (by simp [hsized.nonempty, hsized.blocks])]
  dsimp only
  rw [if_neg (by omega), hmatch]

/-- The receiver's side of an invariant: its counter is the sender's, and its chaining block
is unless the record before was damaged at its end. -/
def InStep (chained : Bool) (sender receiver : RecordLayer) : Prop :=
  receiver.decCtr = sender.encCtr ∧ (chained ↔ receiver.decChain = sender.encChain)

theorem decryptMessage_damaged (hctr : receiver.decCtr = sender.encCtr)
    (hsize : message.length ≤ 65498) (hlimit : sender.encCtr.toNat < 2 ^ 32 - 6)
    (htags : TagsDiffer crypto sender.encCtr message) (hsized : WellSized received)
    (hforge : receiver.plaintext crypto received ≠ framed crypto receiver.decCtr message →
      ∀ candidate ∈ RecordLayer.counterWindow receiver.decCtr,
        tag crypto candidate (RecordLayer.bodyOf (receiver.plaintext crypto received)) ≠
          RecordLayer.macOf (receiver.plaintext crypto received)) :
    receiver.decryptMessage crypto received =
      (if receiver.plaintext crypto received = framed crypto sender.encCtr message
        then some message else none,
        { receiver with
          decChain := (Cbc.decryptBytes crypto.cipher receiver.decChain received).2
          decCtr := receiver.decCtr + 1 }) := by
  by_cases htext : receiver.plaintext crypto received = framed crypto sender.encCtr message
  · rw [if_pos htext, decryptMessage_genuine hctr (by omega) hlimit htags hsized.nonempty
      hsized.blocks htext]
  · have hmatch : RecordLayer.matchingCounter crypto receiver.decCtr
        (receiver.plaintext crypto received) = none := by
      rw [hctr] at hforge ⊢
      apply List.find?_eq_none.mpr
      intro candidate hcandidate
      simpa using hforge htext candidate hcandidate
    rw [if_neg htext, decryptMessage_unmatched hsized hmatch]

end

theorem receive_damaged (haes : ∀ block, crypto.aes (crypto.aesInverse block) = block)
    (hstep : InStep chained sender receiver)
    (hsize : ∀ message ∈ messages, message.length ≤ 65498)
    (htags : TagsAllDiffer crypto sender messages) (hfit : CountersFit sender messages)
    (hlengths : SameLengths (records crypto sender messages) received)
    (hsized : ∀ record ∈ received, WellSized record)
    (hforge : NoForgery crypto receiver.decChain receiver.decCtr messages received) :
    (receive crypto receiver received).1.map Delivery.message =
        survivors crypto sender chained receiver.decChain messages received ∧
      (receive crypto receiver received).2.decCtr.toNat =
        sender.encCtr.toNat + messages.length := by
  induction messages generalizing sender receiver chained received with
  | nil =>
    cases hlengths
    exact ⟨rfl, congrArg UInt32.toNat hstep.1⟩
  | cons message rest ih =>
    rw [records] at hlengths
    cases hlengths with
    | @cons sent first sents later hlength hlengths =>
      rw [forall_mem_cons] at hsize hsized
      have hsent := wellSized_record crypto sender hsize.1
      have hfits : sender.encCtr.toNat < 2 ^ 32 - 6 ∧
          CountersFit (sender.encryptMessage crypto message).2 rest := countersFit_cons.mp hfit
      have hone := decryptMessage_damaged hstep.1 hsize.1 hfits.1 htags.1 hsized.1 hforge.1
      have hnext : InStep (LastIntact (record crypto sender message) first)
          (sender.encryptMessage crypto message).2 (receiver.decryptMessage crypto first).2 := by
        rw [hone, InStep, decide_eq_true_iff]
        refine ⟨?_, lastIntact_iff hsized.1 hsent _⟩
        rw [hstep.1]
        rfl
      have hlater : NoForgery crypto (receiver.decryptMessage crypto first).2.decChain
          (receiver.decryptMessage crypto first).2.decCtr rest later := by
        rw [hone]
        exact hforge.2
      have hrest := ih hnext hsize.2 htags.2 hfits.2 hlengths hsized.2 hlater
      have hdelivered : receiver.plaintext crypto first = framed crypto sender.encCtr message ↔ _ :=
        plaintext_genuine_iff haes hsized.1
      rw [← hstep.2] at hdelivered
      constructor
      · have hsurvive := hrest.1
        rw [hone] at hsurvive
        rw [survivors, if_congr hdelivered.symm rfl rfl, ← hsurvive]
        simp only [receive, hone]
        by_cases htext : receiver.plaintext crypto first = framed crypto sender.encCtr message
        · rw [if_pos htext, if_pos htext, singleton_append, map_cons]
        · rw [if_neg htext, if_neg htext, nil_append]
      · simp only [receive]
        rw [hrest.2, encCtr_encryptMessage hfits.1, length_cons]
        omega

/-- A stream damaged in any of its ciphertexts delivers exactly the messages of the
records that are intact behind an intact block or encrypted anew behind a modified one, and
counts every record. -/
theorem damage_contained (crypto : Crypto)
    (haes : ∀ block, crypto.aes (crypto.aesInverse block) = block) (iv : Block)
    (messages received : List Bytes) (hsize : ∀ message ∈ messages, message.length ≤ 65498)
    (hcount : messages.length < 2 ^ 32 - 6)
    (htags : TagsAllDiffer crypto (RecordLayer.new iv) messages)
    (hlengths : SameLengths (records crypto (RecordLayer.new iv) messages) received)
    (hforge : NoForgery crypto iv 0 messages received) :
    (sendAll crypto (RecordLayer.new iv) messages).1 =
        wire (records crypto (RecordLayer.new iv) messages) ∧
      (decryptStream crypto (RecordLayer.new iv) (wire received)).out =
        survivors crypto (RecordLayer.new iv) true iv messages received ∧
      (decryptStream crypto (RecordLayer.new iv) (wire received)).left = [] ∧
      (decryptStream crypto (RecordLayer.new iv) (wire received)).layer.decCtr.toNat =
        received.length := by
  have hsized := hlengths.wellSized (wellSized_records crypto (RecordLayer.new iv) hsize)
  have hfit : CountersFit (RecordLayer.new iv) messages := by
    intro index hindex
    have hzero : (RecordLayer.new iv).encCtr.toNat = 0 := rfl
    omega
  have hstep : InStep true (RecordLayer.new iv) (RecordLayer.new iv) := ⟨rfl, iff_of_true rfl rfl⟩
  have hrun := receive_damaged haes hstep hsize htags hfit hlengths hsized hforge
  have hlength : received.length = messages.length := by
    rw [← hlengths.length_eq, records_length]
  have hcut : wireRecords (wire received) = (received, []) := by
    have happend := wireRecords_wire_append (fun record h => (hsized record h).toWellFormed) []
    rwa [append_nil, wireRecords_nil, append_nil] at happend
  unfold decryptStream StreamResult.out
  rw [hcut]
  refine ⟨sendAll_eq_wire crypto (RecordLayer.new iv) messages, hrun.1, rfl, ?_⟩
  rw [hlength]
  exact hrun.2.trans (Nat.zero_add _)

def fourMessages : List Bytes := [[1], [2], [3], [4]]

def secondModified : List Bytes :=
  (records clearCrypto freshLayer fourMessages).modify 1 fun record => record.modify 16 (· + 1)

/-- The modified record and its successor are lost, the last one is delivered. -/
theorem damage_contained_secondModified :
    (decryptStream clearCrypto freshLayer (wire secondModified)).out = [[1], [4]] := by
  have hsurvivors : survivors clearCrypto freshLayer true freshLayer.decChain fourMessages
      secondModified = [[1], [4]] := by decide +kernel
  rw [← hsurvivors]
  apply (damage_contained clearCrypto (fun _ => rfl) _ fourMessages secondModified (by decide)
    (by decide) ?_ ?_ ?_).2.1
  · refine ⟨?_, ?_, ?_, ?_, trivial⟩ <;>
    · unfold TagsDiffer
      decide +kernel
  · unfold SameLengths
    decide +kernel
  · -- the counters are tried one by one: as numbers of 32 bits they are too many
    refine ⟨fun h => absurd (by decide +kernel) h, fun _ => ?_, fun _ => ?_,
      fun h => absurd (by decide +kernel) h, trivial⟩ <;>
    exact all_iff_forall_prop.mp (by decide +kernel)

def lastModified : Bytes := (record clearCrypto freshLayer [1]).modify 31 (· + 1)

def rechained : List Bytes :=
  [lastModified, record clearCrypto
    { (freshLayer.encryptMessage clearCrypto [1]).2 with
      encChain := (Cbc.decryptBytes clearCrypto.cipher freshLayer.decChain lastModified).2 } [2]]

/-- Both records are modified, and the second one is delivered. -/
theorem rechained_delivered :
    (∀ block, clearCrypto.aes (clearCrypto.aesInverse block) = block) ∧
      SameLengths (records clearCrypto freshLayer [[1], [2]]) rechained ∧
      TagsAllDiffer clearCrypto freshLayer [[1], [2]] ∧
      NoForgery clearCrypto freshLayer.decChain 0 [[1], [2]] rechained ∧
      List.Forall₂ (· ≠ ·) (records clearCrypto freshLayer [[1], [2]]) rechained ∧
      (decryptStream clearCrypto freshLayer (wire rechained)).out = [[2]] := by
  refine ⟨fun _ => rfl, by unfold SameLengths; decide +kernel, ⟨?_, ?_, trivial⟩,
    ⟨fun _ => ?_, ?_, trivial⟩, by decide +kernel, by decide +kernel⟩
  · unfold TagsDiffer
    decide +kernel
  · unfold TagsDiffer
    decide +kernel
  · exact all_iff_forall_prop.mp (by decide +kernel)
  · exact fun h => absurd (by decide +kernel) h

end Scshr.Protocol
