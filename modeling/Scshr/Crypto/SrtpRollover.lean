import Scshr.Crypto.Srtp

/-! Recovery of the rollover counter.  Packet `n` of an encryptor has index `n`:
the low sixteen bits travel in its header, the rest does not.  The decryptor's
candidates contain the missing part for every packet whose index is within
98303 of the largest one accepted. -/
namespace Scshr.Crypto

open Common Lib List

/-! ## The sender -/

namespace SrtpEncryptor

variable (crypto : SrtpCrypto) (encryptor : SrtpEncryptor) (messages : Nat → RtpMessage)

def after : Nat → SrtpEncryptor
  | 0 => encryptor
  | count + 1 => ((after count).encrypt crypto (messages count)).2

def sentBody (index : Nat) : Bytes :=
  (after crypto encryptor messages index).body crypto (messages index)

def sent (index : Nat) : Bytes :=
  ((after crypto encryptor messages index).encrypt crypto (messages index)).1

end SrtpEncryptor

def rocOf (index : Nat) : UInt32 := UInt32.ofNat (index / 65536)

def seqOf (index : Nat) : UInt16 := UInt16.ofNat index

theorem SrtpEncryptor.after_new (crypto : SrtpCrypto) (masterKey masterSalt : Bytes)
    (ssrc : UInt32) (messages : Nat → RtpMessage) (index : Nat) :
    after crypto (new crypto masterKey masterSalt ssrc) messages index =
      { keys := SrtpKeys.derive crypto masterKey masterSalt
        ssrc := ssrc
        seq := UInt32.ofNat (index % 65536)
        roc := rocOf index
        ts := UInt32.ofNat (480 * index) } := by
  induction index with
  | zero => rfl
  | succ index ih =>
    have hnext : UInt32.ofNat (index % 65536) + 1 > 0xFFFF ↔ (index + 1) % 65536 = 0 := by
      rw [gt_iff_lt, UInt32.lt_iff_toNat_lt]
      simp only [UInt32.toNat_add, UInt32.toNat_ofNat']
      simp only [UInt32.reduceToNat]
      omega
    simp only [after, encrypt, ih, hnext, mk.injEq, true_and]
    refine ⟨?_, ?_, ?_⟩
    · split
      · case isTrue hwrap => rw [hwrap]; rfl
      · case isFalse hwrap =>
        apply UInt32.toNat_inj.mp
        simp only [UInt32.toNat_add, UInt32.toNat_ofNat', UInt32.reduceToNat]
        omega
    · split <;>
      · apply UInt32.toNat_inj.mp
        simp only [rocOf, UInt32.toNat_add, UInt32.toNat_ofNat', UInt32.reduceToNat]
        omega
    · apply UInt32.toNat_inj.mp
      simp only [UInt32.toNat_add, UInt32.toNat_ofNat', UInt32.reduceToNat]
      omega

/-! ## One packet -/

@[simp] theorem SrtpCrypto.crypt_crypt (crypto : SrtpCrypto) (key iv data : Bytes) :
    crypto.crypt key iv (crypto.crypt key iv data) = data := by
  apply ext_getElem
  · simp [crypt]
  · intro position hleft hright
    simp only [crypt, getElem_mapIdx, UInt8.xor_assoc, UInt8.xor_self, UInt8.xor_zero]

@[simp] theorem SrtpCrypto.length_crypt (crypto : SrtpCrypto) (key iv data : Bytes) :
    (crypto.crypt key iv data).length = data.length := by
  simp [crypt]

@[simp] theorem length_authTag (crypto : SrtpCrypto) (keys : SrtpKeys) (body : Bytes)
    (roc : UInt32) : (authTag crypto keys body roc).length = srtpAuthTagLen := by
  simp [authTag, srtpAuthTagLen]

structure Restored (ssrc : UInt32) (index : Nat) (message : RtpMessage)
    (plain : RtpHeaderInfo × Bytes) : Prop where
  payload : (plain.2.drop plain.1.headerLen).take plain.1.payloadLen = message.payload
  ssrc : plain.1.ssrc = ssrc
  seq : plain.1.seq = seqOf index
  timestamp : plain.1.timestamp = UInt32.ofNat (480 * index)
  pt : plain.1.pt = message.pt &&& 0x7F
  marker : plain.1.marker = message.marker

namespace SrtpEncryptor

variable (crypto : SrtpCrypto) (encryptor : SrtpEncryptor) (message : RtpMessage)

@[simp] theorem length_body :
    (encryptor.body crypto message).length = rtpHeaderMin + message.payload.length := by
  simp [body, rtpHeaderMin]
  omega

theorem encrypt_fst :
    (encryptor.encrypt crypto message).1 =
      encryptor.body crypto message ++
        authTag crypto encryptor.keys (encryptor.body crypto message) encryptor.roc :=
  rfl

variable (tag : Bytes)

theorem seq_encrypt :
    UInt16.ofNat (be16At (encryptor.body crypto message ++ tag) 2) = encryptor.seq.toUInt16 := by
  have hfield : be16At (encryptor.body crypto message ++ tag) 2 =
      encryptor.seq.toUInt16.toNat % 2 ^ 16 :=
    be16_ofNat encryptor.seq.toUInt16.toNat
  rw [hfield, Nat.mod_eq_of_lt encryptor.seq.toUInt16.toNat_lt, UInt16.ofNat_toNat]

theorem timestamp_encrypt : be32At (encryptor.body crypto message ++ tag) 4 = encryptor.ts := by
  simp only [body, append_assoc]
  rw [← append_assoc]
  exact be32At_putBe32 ([0x80, _] ++ putBe16 _) encryptor.ts _

theorem ssrc_encrypt : be32At (encryptor.body crypto message ++ tag) 8 = encryptor.ssrc := by
  simp only [body, append_assoc]
  exact be32At_putBe32 ([0x80, _] ++ putBe16 _ ++ putBe32 _) encryptor.ssrc _

theorem pt_encrypt (pt : UInt8) (marker : Bool) :
    ((pt &&& 0x7F) ||| if marker then 0x80 else 0) &&& 0x7F = pt &&& 0x7F := by
  have hmask : (0x7F : UInt8) &&& 0x7F = 0x7F := by decide
  have hmarker : (if marker then 0x80 else 0 : UInt8) &&& 0x7F = 0 := by
    cases marker <;> decide
  have hsplit : ((pt &&& 0x7F) ||| if marker then 0x80 else 0) &&& 0x7F =
      (pt &&& 0x7F &&& 0x7F) ||| ((if marker then 0x80 else 0) &&& 0x7F) :=
    UInt8.toBitVec_inj.mp BitVec.and_or_distrib_right
  rw [hsplit, hmarker, UInt8.or_zero, UInt8.and_assoc, hmask]

theorem marker_encrypt (pt : UInt8) (marker : Bool) :
    (((pt &&& 0x7F) ||| if marker then 0x80 else 0) &&& 0x80 != 0) = marker := by
  have hdisjoint : (0x7F : UInt8) &&& 0x80 = 0 := by decide
  cases marker with
  | false => simp [UInt8.and_assoc, hdisjoint]
  | true =>
    simp only [bne_iff_ne, ne_eq]
    intro hzero
    have := congrArg (fun byte => byte.toBitVec.getLsbD 7) hzero
    simp at this

theorem headerLength_encrypt :
    SrtpDecryptor.headerLength (encryptor.body crypto message ++ tag)
      (encryptor.body crypto message).length = some rtpHeaderMin := by
  have hfirst : (encryptor.body crypto message ++ tag).getD 0 0 = 0x80 := rfl
  have hplain : ((0x80 : UInt8) >>> 4) &&& 1 = 0 := by decide
  have hcsrc : ((0x80 : UInt8) &&& 0x0F).toNat = 0 := by decide
  simp only [SrtpDecryptor.headerLength, hfirst, hplain, hcsrc]
  simp

def opened : RtpHeaderInfo × Bytes :=
  ({ ssrc := encryptor.ssrc
     timestamp := encryptor.ts
     seq := encryptor.seq.toUInt16
     pt := message.pt &&& 0x7F
     marker := message.marker
     headerLen := rtpHeaderMin
     payloadLen := message.payload.length },
    (encryptor.body crypto message).take rtpHeaderMin ++ message.payload ++
      authTag crypto encryptor.keys (encryptor.body crypto message) encryptor.roc)

theorem tryDecrypt_encrypt :
    SrtpDecryptor.tryDecrypt crypto encryptor.keys (encryptor.encrypt crypto message).1
      encryptor.seq.toUInt16 encryptor.ssrc encryptor.roc =
        some (opened crypto encryptor message) := by
  have hlength : (encryptor.encrypt crypto message).1.length - srtpAuthTagLen =
      (encryptor.body crypto message).length := by
    simp [encrypt_fst]
  have hsecond : ∀ tag : Bytes, (encryptor.body crypto message ++ tag).getD 1 0 =
      (message.pt &&& 0x7F) ||| (if message.marker then 0x80 else 0) := fun _ => rfl
  have hheader : rtpHeaderMin ≤ (encryptor.body crypto message).length := by simp
  have hpayload : (encryptor.body crypto message).drop rtpHeaderMin =
      crypto.crypt encryptor.keys.cipherKey encryptor.iv message.payload := rfl
  simp only [SrtpDecryptor.tryDecrypt, hlength]
  rw [encrypt_fst]
  simp only [take_left, drop_left, ne_eq, not_true_eq_false, if_false,
    headerLength_encrypt, Option.map_some, hsecond, pt_encrypt, marker_encrypt,
    timestamp_encrypt, opened, take_append_of_le_length hheader,
    drop_append_of_le_length hheader, hpayload, iv]
  simp [rtpHeaderMin]

theorem tryDecrypt_encrypt_of_ne {roc : UInt32}
    (hdiffer : authTag crypto encryptor.keys (encryptor.body crypto message) roc ≠
      authTag crypto encryptor.keys (encryptor.body crypto message) encryptor.roc) :
    SrtpDecryptor.tryDecrypt crypto encryptor.keys (encryptor.encrypt crypto message).1
      encryptor.seq.toUInt16 encryptor.ssrc roc = none := by
  have hlength : (encryptor.encrypt crypto message).1.length - srtpAuthTagLen =
      (encryptor.body crypto message).length := by
    simp [encrypt_fst]
  simp only [SrtpDecryptor.tryDecrypt, hlength]
  rw [encrypt_fst]
  simp only [take_left, drop_left]
  exact if_pos hdiffer

end SrtpEncryptor

/-! ## The candidates -/

namespace SrtpDecryptor

theorem mem_candidates :
    roc ∈ candidates guess current ↔
      roc = guess ∨ roc = current ∨ roc = guess + 1 ∨ roc = if guess > 0 then guess - 1 else 0 := by
  have hadd : ∀ (cands : List UInt32) (next : UInt32),
      roc ∈ (if next ∈ cands then cands else cands ++ [next]) ↔ roc ∈ cands ∨ roc = next := by
    intro cands next
    split
    · case isTrue hmem => simpa using fun heq : roc = next => heq ▸ hmem
    · simp
  simp only [candidates, foldl_cons, foldl_nil, hadd, or_assoc]
  simp

theorem toNat_pred (roc : UInt32) :
    (if roc > 0 then roc - 1 else 0).toNat = roc.toNat - 1 := by
  split
  · case isTrue hpos =>
    have hone : (1 : UInt32) ≤ roc := by
      rw [gt_iff_lt, UInt32.lt_iff_toNat_lt, UInt32.toNat_zero] at hpos
      rw [UInt32.le_iff_toNat_le, UInt32.toNat_one]
      omega
    rw [UInt32.toNat_sub_of_le roc 1 hone, UInt32.toNat_one]
  · case isFalse hzero =>
    rw [gt_iff_lt, UInt32.lt_iff_toNat_lt, UInt32.toNat_zero] at hzero
    rw [UInt32.toNat_zero]
    omega

theorem rocOf_mem_of_toNat (hguess : guess.toNat < 2 ^ 32 - 1) (hindex : index < 2 ^ 48)
    (hnear : index / 65536 = guess.toNat ∨ index / 65536 = current.toNat ∨
      index / 65536 = guess.toNat + 1 ∨ index / 65536 = guess.toNat - 1) :
    rocOf index ∈ candidates guess current := by
  have hroc : (rocOf index).toNat = index / 65536 := by
    rw [rocOf, UInt32.toNat_ofNat']
    omega
  have hsucc : (guess + 1).toNat = guess.toNat + 1 := by
    rw [UInt32.toNat_add, UInt32.toNat_one]
    omega
  rw [mem_candidates]
  simp only [← UInt32.toNat_inj, toNat_pred, hroc, hsucc]
  exact hnear

theorem rocOf_mem_candidates (hlargest : largest < 2 ^ 48 - 2 ^ 17)
    (hindex : index < 2 ^ 48 - 2 ^ 17) (hahead : index ≤ largest + 98303)
    (hbehind : largest ≤ index + 98303) :
    let guess := rocGuess (some ⟨rocOf largest, seqOf largest, true⟩) (seqOf index)
    rocOf index ∈ candidates guess.1 guess.2 := by
  have hroc : (rocOf largest).toNat = largest / 65536 := by
    rw [rocOf, UInt32.toNat_ofNat']
    omega
  have hseq : ∀ index, (seqOf index).toNat = index % 65536 := fun _ => UInt16.toNat_ofNat'
  have hsucc : (rocOf largest + 1).toNat = largest / 65536 + 1 := by
    rw [UInt32.toNat_add, UInt32.toNat_one, hroc]
    omega
  simp only [rocGuess, if_true, hseq]
  -- a distance of half a cycle puts the packet in the neighbouring one
  by_cases hback : ((index % 65536 : Nat) : Int) - (largest % 65536 : Nat) > 0x7FFF
  · rw [if_pos hback]
    apply rocOf_mem_of_toNat
    · rw [toNat_pred, hroc]
      omega
    · omega
    · rw [toNat_pred, hroc]
      omega
  · rw [if_neg hback]
    by_cases hwrap : ((index % 65536 : Nat) : Int) - (largest % 65536 : Nat) < -0x7FFF
    · rw [if_pos hwrap]
      apply rocOf_mem_of_toNat
      · rw [hsucc]
        omega
      · omega
      · rw [hsucc]
        omega
    · rw [if_neg hwrap]
      apply rocOf_mem_of_toNat
      · rw [hroc]
        omega
      · omega
      · rw [hroc]
        omega

/-! ## The receiver -/

theorem packetIndex_of_lt (hindex : index < 2 ^ 48) :
    packetIndex (rocOf index) (seqOf index) = index := by
  rw [packetIndex, rocOf, seqOf, UInt32.toNat_ofNat', UInt16.toNat_ofNat']
  omega

private theorem findSome?_of_only {α β : Type} {f : α → Option β} {wanted : α} {value : β}
    {items : List α} (hmem : wanted ∈ items) (hvalue : f wanted = some value)
    (hothers : ∀ other, other ≠ wanted → f other = none) :
    items.findSome? f = some value := by
  classical
  induction items with
  | nil => simp at hmem
  | cons item rest ih =>
    by_cases hitem : item = wanted
    · simp [hitem, hvalue]
    · have hrest : wanted ∈ rest := by simpa [Ne.symm hitem] using hmem
      simpa [hothers item hitem] using ih hrest

def TagsDiffer (crypto : SrtpCrypto) (keys : SrtpKeys) (body : Bytes) (roc : UInt32) : Prop :=
  ∀ other, other ≠ roc → authTag crypto keys body other ≠ authTag crypto keys body roc

theorem decrypt_encrypt (crypto : SrtpCrypto) (encryptor : SrtpEncryptor) (message : RtpMessage)
    (decryptor : SrtpDecryptor) (hkeys : decryptor.keys = encryptor.keys)
    (hdiffer : TagsDiffer crypto encryptor.keys (encryptor.body crypto message) encryptor.roc)
    (hmem : encryptor.roc ∈ candidates
      (rocGuess (decryptor.states.lookup encryptor.ssrc) encryptor.seq.toUInt16).1
      (rocGuess (decryptor.states.lookup encryptor.ssrc) encryptor.seq.toUInt16).2) :
    decrypt crypto decryptor (encryptor.encrypt crypto message).1 =
      (some (encryptor.opened crypto message),
        { decryptor with
          states := updateState decryptor.states encryptor.ssrc encryptor.roc
            encryptor.seq.toUInt16
          counts := decryptor.counts.insert encryptor.ssrc
            ((decryptor.counts.lookup encryptor.ssrc).getD 0 + 1) }) := by
  have hlong : ¬(encryptor.encrypt crypto message).1.length < rtpHeaderMin + srtpAuthTagLen := by
    simp [SrtpEncryptor.encrypt_fst]
  have hseq : UInt16.ofNat (be16At (encryptor.encrypt crypto message).1 2) =
      encryptor.seq.toUInt16 := SrtpEncryptor.seq_encrypt crypto encryptor message _
  have hssrc : be32At (encryptor.encrypt crypto message).1 8 = encryptor.ssrc :=
    SrtpEncryptor.ssrc_encrypt crypto encryptor message _
  let attempt (roc : UInt32) :=
    (tryDecrypt crypto encryptor.keys (encryptor.encrypt crypto message).1
      encryptor.seq.toUInt16 encryptor.ssrc roc).map fun plain => (roc, plain)
  have hright : attempt encryptor.roc =
      some (encryptor.roc, encryptor.opened crypto message) := by
    simp only [attempt, SrtpEncryptor.tryDecrypt_encrypt, Option.map_some]
  have hwrong : ∀ roc, roc ≠ encryptor.roc → attempt roc = none := by
    intro roc hroc
    simp only [attempt, SrtpEncryptor.tryDecrypt_encrypt_of_ne crypto encryptor message
      (hdiffer roc hroc), Option.map_none]
  have hfound := findSome?_of_only hmem hright hwrong
  rw [decrypt, if_neg hlong, hssrc, hseq, hkeys]
  simp only [attempt] at hfound
  simp only [hfound]

def nextLargest (largest : Option Nat) (index : Nat) : Nat := largest.elim index (max · index)

def Tracks (ssrc : UInt32) (decryptor : SrtpDecryptor) (largest : Option Nat) : Prop :=
  decryptor.states.lookup ssrc = largest.map fun index => ⟨rocOf index, seqOf index, true⟩

theorem lookup_updateState {states : AssocMap UInt32 SsrcState} {ssrc : UInt32}
    {largest : Option Nat} {index : Nat}
    (htracks : states.lookup ssrc = largest.map fun index => ⟨rocOf index, seqOf index, true⟩)
    (hlargest : ∀ old ∈ largest, old < 2 ^ 48) (hindex : index < 2 ^ 48) :
    (updateState states ssrc (rocOf index) (seqOf index)).lookup ssrc =
      some ⟨rocOf (nextLargest largest index), seqOf (nextLargest largest index), true⟩ := by
  cases largest with
  | none => simp [updateState, htracks, nextLargest]
  | some old =>
    simp only [updateState, htracks, Option.map_some, packetIndex_of_lt hindex,
      packetIndex_of_lt (hlargest old rfl), nextLargest, Option.elim_some, Bool.not_true,
      Bool.false_eq_true, if_false]
    split
    · case isTrue hnew => simp [Nat.max_eq_right (Nat.le_of_lt hnew)]
    · case isFalse hold => simp [htracks, Nat.max_eq_left (Nat.le_of_not_lt hold)]

/-- Which packet may come next: rollover counter 0 or 1 at first, then within 98303 of
the largest index. -/
def Reachable (largest : Option Nat) (index : Nat) : Prop :=
  match largest with
  | none => index / 65536 ≤ 1
  | some old => index ≤ old + 98303 ∧ old ≤ index + 98303

def InReach : Option Nat → List Nat → Prop
  | _, [] => True
  | largest, index :: rest =>
      Reachable largest index ∧ InReach (some (nextLargest largest index)) rest

def decryptAll (crypto : SrtpCrypto) :
    SrtpDecryptor → List Bytes → List (Option (RtpHeaderInfo × Bytes)) × SrtpDecryptor
  | decryptor, [] => ([], decryptor)
  | decryptor, pkt :: rest =>
      let first := decrypt crypto decryptor pkt
      let later := decryptAll crypto first.2 rest
      (first.1 :: later.1, later.2)

theorem mem_candidates_of_reachable (hlargest : ∀ old ∈ largest, old < 2 ^ 48 - 2 ^ 17)
    (hindex : index < 2 ^ 48 - 2 ^ 17) (hreach : Reachable largest index) :
    let guess := rocGuess (largest.map fun index => ⟨rocOf index, seqOf index, true⟩) (seqOf index)
    rocOf index ∈ candidates guess.1 guess.2 := by
  cases largest with
  | none =>
    apply rocOf_mem_of_toNat
    · exact Nat.zero_lt_succ _
    · omega
    · change index / 65536 ≤ 1 at hreach
      simp only [Option.map_none, rocGuess, UInt32.toNat_zero]
      omega
  | some old => exact rocOf_mem_candidates (hlargest old rfl) hindex hreach.1 hreach.2

section Run

variable {crypto : SrtpCrypto} {masterKey masterSalt : Bytes} {ssrc : UInt32}
  {messages : Nat → RtpMessage}

theorem decrypt_sent {decryptor : SrtpDecryptor} {largest : Option Nat} {index : Nat}
    (hkeys : decryptor.keys = SrtpKeys.derive crypto masterKey masterSalt)
    (htracks : Tracks ssrc decryptor largest)
    (hlargest : ∀ old ∈ largest, old < 2 ^ 48 - 2 ^ 17) (hindex : index < 2 ^ 48 - 2 ^ 17)
    (hreach : Reachable largest index)
    (hdiffer : TagsDiffer crypto (SrtpKeys.derive crypto masterKey masterSalt)
      ((SrtpEncryptor.new crypto masterKey masterSalt ssrc).sentBody crypto messages index)
      (rocOf index)) :
    let sender := SrtpEncryptor.new crypto masterKey masterSalt ssrc
    let received := decrypt crypto decryptor (sender.sent crypto messages index)
    (∃ plain, received.1 = some plain ∧ Restored ssrc index (messages index) plain) ∧
      received.2.keys = decryptor.keys ∧
      Tracks ssrc received.2 (some (nextLargest largest index)) := by
  have hseq : (UInt32.ofNat (index % 65536)).toUInt16 = seqOf index := by
    apply UInt16.toNat_inj.mp
    rw [seqOf, UInt32.toNat_toUInt16, UInt32.toNat_ofNat', UInt16.toNat_ofNat']
    omega
  intro sender received
  simp only [received, sender, SrtpEncryptor.sent]
  rw [SrtpEncryptor.sentBody, SrtpEncryptor.after_new] at hdiffer
  rw [SrtpEncryptor.after_new, decrypt_encrypt crypto _ _ decryptor hkeys hdiffer]
  · refine ⟨⟨_, rfl, ?_⟩, rfl, ?_⟩
    · constructor <;> simp [SrtpEncryptor.opened, hseq]
    · rw [Tracks, Option.map_some, hseq]
      apply lookup_updateState htracks
      · intro old hold
        have := hlargest old hold
        omega
      · omega
  · simp only [hseq]
    rw [htracks]
    exact mem_candidates_of_reachable hlargest hindex hreach

theorem decryptAll_sent (hkeys : decryptor.keys = SrtpKeys.derive crypto masterKey masterSalt)
    (htracks : Tracks ssrc decryptor largest) (hlargest : ∀ old ∈ largest, old < 2 ^ 48 - 2 ^ 17)
    (hbound : ∀ index ∈ indices, index < 2 ^ 48 - 2 ^ 17) (hreach : InReach largest indices)
    (hdiffer : ∀ index ∈ indices, TagsDiffer crypto (SrtpKeys.derive crypto masterKey masterSalt)
      ((SrtpEncryptor.new crypto masterKey masterSalt ssrc).sentBody crypto messages index)
      (rocOf index)) :
    let sender := SrtpEncryptor.new crypto masterKey masterSalt ssrc
    let received := decryptAll crypto decryptor (indices.map (sender.sent crypto messages))
    List.Forall₂ (fun index result => ∃ plain, result = some plain ∧
        Restored ssrc index (messages index) plain) indices received.1 ∧
      Tracks ssrc received.2
        (indices.foldl (fun largest index => some (nextLargest largest index)) largest) := by
  induction indices generalizing decryptor largest with
  | nil => exact ⟨List.Forall₂.nil, htracks⟩
  | cons index rest ih =>
    simp only [forall_mem_cons] at hbound hdiffer
    have hfirst := decrypt_sent hkeys htracks hlargest hbound.1 hreach.1 hdiffer.1
    have hnext : ∀ old ∈ some (nextLargest largest index), old < 2 ^ 48 - 2 ^ 17 := by
      intro old hold
      cases largest with
      | none => exact Option.some.inj hold ▸ hbound.1
      | some before => exact Option.some.inj hold ▸ max_lt (hlargest before rfl) hbound.1
    have hrest := ih (hfirst.2.1.trans hkeys) hfirst.2.2 hnext hbound.2 hreach.2 hdiffer.2
    exact ⟨List.Forall₂.cons hfirst.1 hrest.1, hrest.2⟩

theorem foldl_nextLargest (indices : List Nat) :
    indices.foldl (fun largest index => some (nextLargest largest index)) none =
      indices.max? := by
  have hsome : ∀ (rest : List Nat) (first : Nat),
      rest.foldl (fun largest index => some (nextLargest largest index)) (some first) =
        some (rest.foldl max first) := by
    intro rest
    induction rest with
    | nil => intro first; rfl
    | cons index rest ih => intro first; exact ih (max first index)
  cases indices with
  | nil => rfl
  | cons index rest => exact hsome rest index

end Run

/-- A delivery of any packets of one sender, in any order and any number of times, whose
indices stay within reach is restored packet by packet, and the receiver ends at the
largest index. -/
theorem rollover_recovered (crypto : SrtpCrypto) (masterKey masterSalt : Bytes) (ssrc : UInt32)
    (messages : Nat → RtpMessage) (indices : List Nat)
    (hbound : ∀ index ∈ indices, index < 2 ^ 48 - 2 ^ 17) (hreach : InReach none indices)
    (hdiffer : ∀ index ∈ indices, TagsDiffer crypto (SrtpKeys.derive crypto masterKey masterSalt)
      ((SrtpEncryptor.new crypto masterKey masterSalt ssrc).sentBody crypto messages index)
      (rocOf index)) :
    let sender := SrtpEncryptor.new crypto masterKey masterSalt ssrc
    let receiver := new crypto masterKey masterSalt
    let received := decryptAll crypto receiver (indices.map (sender.sent crypto messages))
    List.Forall₂ (fun index result => ∃ plain, result = some plain ∧
        Restored ssrc index (messages index) plain) indices received.1 ∧
      (received.2.state ssrc).map (fun state => packetIndex state.roc state.maxSeq) =
        indices.max? := by
  intro sender receiver received
  have hrun := @decryptAll_sent crypto masterKey masterSalt ssrc messages receiver none indices
    rfl rfl (by simp) hbound hreach hdiffer
  refine ⟨hrun.1, ?_⟩
  have htracks : Tracks ssrc received.2 indices.max? := foldl_nextLargest indices ▸ hrun.2
  rw [state, htracks]
  cases hmax : indices.max? with
  | none => rfl
  | some largest =>
    have hlt := hbound largest (List.max?_mem hmax)
    have hindex : packetIndex (rocOf largest) (seqOf largest) = largest :=
      packetIndex_of_lt (by omega)
    simp [hindex]

def counterTagCrypto : SrtpCrypto where
  ecb _ block := block
  ctr _ _ _ := 0x5A
  hmacSha1 _ data :=
    let last := data.reverse
    #v[last.getD 0 0, last.getD 1 0, last.getD 2 0, last.getD 3 0, 0, 0, 0, 0, 0, 0,
      0, 0, 0, 0, 0, 0, 0, 0, 0, 0]

theorem tagsDiffer_counterTagCrypto (keys : SrtpKeys) (body : Bytes) (roc : UInt32) :
    TagsDiffer counterTagCrypto keys body roc := by
  intro other hother hequal
  have hfour : ∀ roc : UInt32, (authTag counterTagCrypto keys body roc).take 4 =
      (putBe32 roc).reverse := by
    intro roc
    simp [authTag, counterTagCrypto, srtpAuthTagLen, putBe32]
  have hbytes : putBe32 other = putBe32 roc := by
    rw [← reverse_inj, ← hfour, ← hfour, hequal]
  apply hother
  apply UInt32.toNat_inj.mp
  rw [← beNat_putBe32, ← beNat_putBe32, hbytes]

/-- Three packets around two rollovers, the second one late. -/
theorem rollover_recovered_twoCycles :
    InReach none [70000, 65535, 163838] ∧
      (let sender := SrtpEncryptor.new counterTagCrypto [] [] 7
       let received := decryptAll counterTagCrypto (new counterTagCrypto [] [])
         ([70000, 65535, 163838].map (sender.sent counterTagCrypto fun _ => ⟨[1, 2, 3], 101, true⟩))
       (received.2.state 7).map (fun state => packetIndex state.roc state.maxSeq) =
         some 163838) := by
  have hreach : InReach none [70000, 65535, 163838] := by
    simp [InReach, Reachable, nextLargest]
  exact ⟨hreach, (rollover_recovered counterTagCrypto [] [] 7 (fun _ => ⟨[1, 2, 3], 101, true⟩)
    [70000, 65535, 163838] (by simp) hreach
    (fun _ _ => tagsDiffer_counterTagCrypto _ _ _)).2⟩

end SrtpDecryptor

end Scshr.Crypto
