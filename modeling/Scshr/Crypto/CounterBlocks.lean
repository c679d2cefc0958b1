import Mathlib.Data.List.Induction
import Scshr.Crypto.Srtcp

/-! No counter block is used twice.  The IVs of SRTP and SRTCP are the salt with a field of
fourteen bytes xored into it and two zero bytes behind, so that 2¹⁶ blocks fit between two of
them. -/
namespace Scshr.Crypto

open Common Lib
open List hiding length

/-- The input of AES for a block of the keystream: the IV counts up as a 128-bit number. -/
def counterBlock (iv : Bytes) (block : Nat) : Nat := (beNat iv + block) % 2 ^ 128

def blockCount (length : Nat) : Nat := (length + 15) / 16

def keystreamByte (crypto : SrtpCrypto) (key iv : Bytes) (position : Nat) : UInt8 :=
  (crypto.ecb key (putBe 16 (counterBlock iv (position / 16)))).getD (position % 16) 0

/-- AES in counter mode. -/
structure CounterMode (crypto : SrtpCrypto) : Prop where
  block : ∀ key block, (crypto.ecb key block).length = 16
  keystream : ∀ key iv position, crypto.ctr key iv position = keystreamByte crypto key iv position

/-- `sent` has `data` behind its first `front` bytes, every byte under its counter block. -/
def Carries (crypto : SrtpCrypto) (key iv : Bytes) (front : Nat) (data sent : Bytes) : Prop :=
  ∀ position (h : position < data.length),
    sent[front + position]? = some (data[position] ^^^ keystreamByte crypto key iv position)

/-! ## Big-endian numbers -/

variable {left right salt : Bytes} {a b index index' : Nat} {ssrc ssrc' : UInt32}

theorem beNat_append_singleton (front : Bytes) (byte : UInt8) :
    beNat (front ++ [byte]) = beNat front * 256 + byte.toNat :=
  foldl_concat ..

theorem beNat_inj (hlength : left.length = right.length) (h : beNat left = beNat right) :
    left = right := by
  induction left using reverseRecOn generalizing right with
  | nil => exact (length_eq_zero_iff.mp hlength.symm).symm
  | append_singleton left byte ih =>
    cases right using reverseRecOn with
    | nil => simp at hlength
    | append_singleton right other =>
      rw [beNat_append_singleton, beNat_append_singleton] at h
      have hlt := byte.toNat_lt
      have hother := other.toNat_lt
      have hfront : left = right := ih (by simpa using hlength) (by omega)
      have hbyte : byte = other := UInt8.toNat_inj.mp (by omega)
      rw [hfront, hbyte]

/-! ## Salted fields -/

def saltIv (salt field : Bytes) : Bytes := zipWith (· ^^^ ·) salt field ++ [0, 0]

theorem zipWith_xor_inj (hleft : left.length = salt.length) (hright : right.length = salt.length)
    (h : zipWith (· ^^^ ·) salt left = zipWith (· ^^^ ·) salt right) : left = right := by
  induction salt generalizing left right with
  | nil => rw [length_eq_zero_iff.mp hleft, length_eq_zero_iff.mp hright]
  | cons byte salt ih =>
    cases left with
    | nil => cases hleft
    | cons first left =>
      cases right with
      | nil => cases hright
      | cons second right =>
        rw [zipWith_cons_cons, zipWith_cons_cons, cons.injEq] at h
        have hbyte : first = second := by
          have hcancel := congrArg (byte ^^^ ·) h.1
          simpa [← UInt8.xor_assoc] using hcancel
        rw [hbyte, ih (by simpa using hleft) (by simpa using hright) h.2]

theorem counterBlock_saltIv_inj (hsalt : salt.length = 14) (hleft : left.length = 14)
    (hright : right.length = 14) (ha : a < 2 ^ 16) (hb : b < 2 ^ 16)
    (h : counterBlock (saltIv salt left) a = counterBlock (saltIv salt right) b) :
    left = right ∧ a = b := by
  have hvalue : ∀ field : Bytes, beNat (saltIv salt field) =
      beNat (zipWith (· ^^^ ·) salt field) * 65536 := by
    intro field
    rw [saltIv, append_cons, beNat_append_singleton, beNat_append_singleton,
      UInt8.toNat_zero]
    omega
  have hbound : ∀ field : Bytes, field.length = 14 →
      beNat (zipWith (· ^^^ ·) salt field) < 2 ^ 112 := by
    intro field hfield
    have hlength : (zipWith (· ^^^ ·) salt field).length = 14 := by simp [hsalt, hfield]
    have hlt := beNat_lt (zipWith (· ^^^ ·) salt field)
    rw [hlength] at hlt
    exact hlt
  have hl := hbound left hleft
  have hr := hbound right hright
  -- no carry leaves the two zero bytes, and nothing wraps
  rw [counterBlock, counterBlock, hvalue, hvalue, Nat.mod_eq_of_lt (by omega),
    Nat.mod_eq_of_lt (by omega)] at h
  have hfields : zipWith (· ^^^ ·) salt left = zipWith (· ^^^ ·) salt right :=
    beNat_inj (by simp [hleft, hright]) (by omega)
  exact ⟨zipWith_xor_inj (hleft.trans hsalt.symm) (hright.trans hsalt.symm) hfields, by omega⟩

theorem saltIv_eq (hsalt : salt.length = 14) (hfield : field.length = 14) :
    zipWith (· ^^^ ·) (salt ++ [0, 0]) (field ++ [0, 0]) = saltIv salt field := by
  rw [zipWith_append (hsalt.trans hfield.symm), saltIv]
  rfl

/-! ## The two IVs -/

def rtpField (ssrc : UInt32) (index : Nat) : Bytes :=
  [0, 0, 0, 0] ++ putBe32 ssrc ++ putBe48 index

theorem buildRtpIv_eq (hsalt : salt.length = 14) (ssrc : UInt32) (index : Nat) :
    buildRtpIv salt ssrc index = saltIv salt (rtpField ssrc index) :=
  saltIv_eq hsalt rfl

theorem putBe32_inj {left right : UInt32} (h : putBe32 left = putBe32 right) : left = right := by
  have hvalue := congrArg beNat h
  rw [beNat_putBe32, beNat_putBe32] at hvalue
  exact UInt32.toNat_inj.mp hvalue

theorem beNat_putBe48 (h : index < 2 ^ 48) : beNat (putBe48 index) = index := by
  simp only [beNat, putBe48, foldl_cons, foldl_nil, UInt8.toNat_ofNat',
    Nat.shiftRight_eq_div_pow]
  omega

theorem rtpField_inj (hindex : index < 2 ^ 48) (hindex' : index' < 2 ^ 48)
    (h : rtpField ssrc index = rtpField ssrc' index') : ssrc = ssrc' ∧ index = index' := by
  obtain ⟨hfront, hback⟩ := append_inj h rfl
  refine ⟨putBe32_inj (append_cancel_left hfront), ?_⟩
  have hvalue := congrArg beNat hback
  rwa [beNat_putBe48 hindex, beNat_putBe48 hindex'] at hvalue

theorem counterBlock_buildRtpIv_inj (hsalt : salt.length = 14) (hindex : index < 2 ^ 48)
    (hindex' : index' < 2 ^ 48) (ha : a < 2 ^ 16) (hb : b < 2 ^ 16)
    (h : counterBlock (buildRtpIv salt ssrc index) a =
      counterBlock (buildRtpIv salt ssrc' index') b) : (ssrc = ssrc' ∧ index = index') ∧ a = b := by
  rw [buildRtpIv_eq hsalt, buildRtpIv_eq hsalt] at h
  obtain ⟨hfields, hab⟩ := counterBlock_saltIv_inj hsalt rfl rfl ha hb h
  exact ⟨rtpField_inj hindex hindex' hfields, hab⟩

def rtcpField (ssrc index : UInt32) : Bytes :=
  [0, 0, 0, 0] ++ putBe32 ssrc ++ [0, 0] ++ putBe32 index

theorem buildRtcpIv_eq (hsalt : salt.length = 14) (ssrc index : UInt32) :
    buildRtcpIv salt ssrc index = saltIv salt (rtcpField ssrc index) :=
  saltIv_eq hsalt rfl

theorem rtcpField_inj {index index' : UInt32} (h : rtcpField ssrc index = rtcpField ssrc index') :
    index = index' :=
  putBe32_inj (append_cancel_left h)

/-! ## Runs -/

theorem length_srtpKdf (hblock : ∀ key block, (crypto.ecb key block).length = 16)
    (masterKey masterSalt : Bytes) (label : UInt8) (outLen : Nat) :
    (srtpKdf crypto masterKey masterSalt label outLen).length = outLen := by
  rw [srtpKdf]
  simp only [length_take, length_flatMap, hblock, map_const', sum_replicate_nat,
    length_range]
  omega

theorem blockCount_le (hshort : length < 2 ^ 20) (hblock : block < blockCount length) :
    block < 2 ^ 16 := by
  unfold blockCount at hblock
  omega

theorem carries_crypt (hcrypto : CounterMode crypto) (key iv header data tag : Bytes) :
    Carries crypto key iv header.length data (header ++ crypto.crypt key iv data ++ tag) := by
  intro position hposition
  have hinside : position < (crypto.crypt key iv data).length := by simpa using hposition
  rw [append_assoc, getElem?_append_right (by omega), Nat.add_sub_cancel_left,
    getElem?_append_left hinside, getElem?_eq_getElem hinside]
  simp [SrtpCrypto.crypt, hcrypto.keystream]

theorem SrtpEncryptor.carries_encrypt (hcrypto : CounterMode crypto) (encryptor : SrtpEncryptor)
    (message : RtpMessage) :
    Carries crypto encryptor.keys.cipherKey encryptor.iv rtpHeaderMin message.payload
      (encryptor.encrypt crypto message).1 :=
  carries_crypt hcrypto encryptor.keys.cipherKey encryptor.iv
    ((encryptor.body crypto message).take rtpHeaderMin) message.payload
    (authTag crypto encryptor.keys (encryptor.body crypto message) encryptor.roc)

theorem SrtcpEncryptor.carries_protect (hcrypto : CounterMode crypto) (encryptor : SrtcpEncryptor)
    (rtcp : Bytes) :
    Carries crypto encryptor.keys.cipherKey (encryptor.iv rtcp) 8 (rtcp.drop 8)
      (encryptor.protect crypto rtcp).1 := by
  by_cases hlong : 8 ≤ rtcp.length
  · have hcarries := carries_crypt hcrypto encryptor.keys.cipherKey (encryptor.iv rtcp)
      (rtcp.take 8) (rtcp.drop 8) (putBe32 (encryptFlag ||| encryptor.index) ++
        rtcpTag crypto encryptor.keys (encryptor.body crypto rtcp))
    rw [length_take, Nat.min_eq_left hlong, ← append_assoc] at hcarries
    rw [protect, if_neg (Nat.not_lt.mpr hlong)]
    exact hcarries
  · -- nothing is sent
    intro position hposition
    rw [length_drop] at hposition
    omega

theorem SrtpEncryptor.iv_after (crypto : SrtpCrypto) (masterKey masterSalt : Bytes)
    (ssrc : UInt32) (messages : Nat → RtpMessage) (i : Nat) :
    (after crypto (new crypto masterKey masterSalt ssrc) messages i).iv =
      buildRtpIv (SrtpKeys.derive crypto masterKey masterSalt).salt ssrc (i % 2 ^ 48) := by
  have hindex : packetIndex (rocOf i) (UInt32.ofNat (i % 65536)).toUInt16 = i % 2 ^ 48 := by
    simp only [packetIndex, rocOf, UInt32.toNat_toUInt16, UInt32.toNat_ofNat']
    omega
  rw [iv, after_new]
  simp only [hindex]

def SrtcpEncryptor.after (crypto : SrtpCrypto) (encryptor : SrtcpEncryptor)
    (messages : Nat → Bytes) : Nat → SrtcpEncryptor
  | 0 => encryptor
  | count + 1 => ((after crypto encryptor messages count).protect crypto (messages count)).2

theorem SrtcpEncryptor.after_new (crypto : SrtpCrypto) (masterKey masterSalt : Bytes)
    (messages : Nat → Bytes) (i : Nat) :
    after crypto (new crypto masterKey masterSalt) messages i =
      ⟨SrtpKeys.deriveRtcp crypto masterKey masterSalt, UInt32.ofNat i⟩ := by
  induction i with
  | zero => rfl
  | succ i ih =>
    have hnext : ∀ rtcp, ((SrtcpEncryptor.mk (SrtpKeys.deriveRtcp crypto masterKey masterSalt)
        (UInt32.ofNat i)).protect crypto rtcp).2 =
          ⟨SrtpKeys.deriveRtcp crypto masterKey masterSalt, UInt32.ofNat i + 1⟩ := by
      intro rtcp
      unfold protect
      dsimp only
      split <;> rfl
    rw [after, ih, hnext, UInt32.ofNat_add]
    rfl

/-- The payloads are sent under AES counter blocks, no two of which coincide in a run. -/
theorem no_keystream_reuse (crypto : SrtpCrypto) (hcrypto : CounterMode crypto)
    (masterKey masterSalt : Bytes) :
    (∀ (ssrc : UInt32) (messages : Nat → RtpMessage),
      (∀ i, (messages i).payload.length < 2 ^ 20) →
      let sender i := SrtpEncryptor.after crypto (.new crypto masterKey masterSalt ssrc) messages i
      (∀ i, Carries crypto (SrtpKeys.derive crypto masterKey masterSalt).cipherKey (sender i).iv
        rtpHeaderMin (messages i).payload ((sender i).encrypt crypto (messages i)).1) ∧
      ∀ i j a b, i < j + 2 ^ 48 → j < i + 2 ^ 48 →
        a < blockCount (messages i).payload.length → b < blockCount (messages j).payload.length →
        counterBlock (sender i).iv a = counterBlock (sender j).iv b → i = j ∧ a = b) ∧
    (∀ (ssrc : UInt32) (messages : Nat → Bytes),
      (∀ i, (messages i).length < 2 ^ 20 ∧
        (8 ≤ (messages i).length → be32At (messages i) 4 = ssrc)) →
      let sender i := SrtcpEncryptor.after crypto (.new crypto masterKey masterSalt) messages i
      (∀ i, Carries crypto (SrtpKeys.deriveRtcp crypto masterKey masterSalt).cipherKey
        ((sender i).iv (messages i)) 8 ((messages i).drop 8)
        ((sender i).protect crypto (messages i)).1) ∧
      ∀ i j a b, i < j + 2 ^ 32 → j < i + 2 ^ 32 →
        a < blockCount ((messages i).length - 8) → b < blockCount ((messages j).length - 8) →
        counterBlock ((sender i).iv (messages i)) a = counterBlock ((sender j).iv (messages j)) b →
        i = j ∧ a = b) ∧
    ∀ (salt : Bytes) (ssrc ssrc' : UInt32) (index index' : Nat), salt.length = 14 →
      index < 2 ^ 48 → index' < 2 ^ 48 → (ssrc, index) ≠ (ssrc', index') →
      buildRtpIv salt ssrc index ≠ buildRtpIv salt ssrc' index' ∧
      ∀ a b, a < 2 ^ 16 → b < 2 ^ 16 →
        counterBlock (buildRtpIv salt ssrc index) a ≠
          counterBlock (buildRtpIv salt ssrc' index') b := by
  refine ⟨?_, ?_, ?_⟩
  · intro ssrc messages hshort sender
    constructor
    · intro i
      have hkeys : (sender i).keys = SrtpKeys.derive crypto masterKey masterSalt :=
        congrArg SrtpEncryptor.keys (SrtpEncryptor.after_new ..)
      rw [← hkeys]
      exact SrtpEncryptor.carries_encrypt hcrypto (sender i) (messages i)
    · intro i j a b hij hji ha hb hsame
      rw [SrtpEncryptor.iv_after, SrtpEncryptor.iv_after] at hsame
      obtain ⟨⟨-, hindex⟩, hab⟩ := counterBlock_buildRtpIv_inj (length_srtpKdf hcrypto.block ..)
        (Nat.mod_lt _ (by decide)) (Nat.mod_lt _ (by decide)) (blockCount_le (hshort i) ha)
        (blockCount_le (hshort j) hb) hsame
      exact ⟨by omega, hab⟩
  · intro ssrc messages hmessages sender
    have hsender : ∀ i, sender i =
        ⟨SrtpKeys.deriveRtcp crypto masterKey masterSalt, UInt32.ofNat i⟩ :=
      SrtcpEncryptor.after_new crypto masterKey masterSalt messages
    constructor
    · intro i
      have hkeys : (sender i).keys = SrtpKeys.deriveRtcp crypto masterKey masterSalt := by
        rw [hsender]
      rw [← hkeys]
      exact SrtcpEncryptor.carries_protect hcrypto (sender i) (messages i)
    · intro i j a b hij hji ha hb hsame
      have hsalt : (SrtpKeys.deriveRtcp crypto masterKey masterSalt).salt.length = 14 :=
        length_srtpKdf hcrypto.block ..
      have hiv : ∀ k c, c < blockCount ((messages k).length - 8) →
          (sender k).iv (messages k) =
            saltIv (SrtpKeys.deriveRtcp crypto masterKey masterSalt).salt
              (rtcpField ssrc (UInt32.ofNat k)) := by
        intro k c hc
        -- a message that has a block has a source
        have hlong : 8 ≤ (messages k).length := by
          unfold blockCount at hc
          omega
        rw [← buildRtcpIv_eq hsalt, ← (hmessages k).2 hlong, hsender]
        rfl
      have hle : ∀ k c, c < blockCount ((messages k).length - 8) → c < 2 ^ 16 := by
        intro k c hc
        exact blockCount_le (Nat.lt_of_le_of_lt (Nat.sub_le ..) (hmessages k).1) hc
      rw [hiv i a ha, hiv j b hb] at hsame
      obtain ⟨hfields, hab⟩ := counterBlock_saltIv_inj hsalt rfl rfl
        (hle i a ha) (hle j b hb) hsame
      have hindex := congrArg UInt32.toNat (rtcpField_inj hfields)
      rw [UInt32.toNat_ofNat', UInt32.toNat_ofNat'] at hindex
      exact ⟨by omega, hab⟩
  · intro salt ssrc ssrc' index index' hsalt hindex hindex' hdistinct
    have hblocks : ∀ a b, a < 2 ^ 16 → b < 2 ^ 16 →
        counterBlock (buildRtpIv salt ssrc index) a ≠
          counterBlock (buildRtpIv salt ssrc' index') b := by
      intro a b ha hb hsame
      have hpair := (counterBlock_buildRtpIv_inj hsalt hindex hindex' ha hb hsame).1
      exact hdistinct (Prod.ext_iff.mpr hpair)
    refine ⟨?_, hblocks⟩
    intro hsame
    exact hblocks 0 0 (by decide) (by decide) (congrArg (counterBlock · 0) hsame)

def blockCrypto : SrtpCrypto where
  ecb _ _ := replicate 16 7
  ctr _ _ _ := 7
  hmacSha1 _ _ := Vector.replicate 20 0

theorem counterMode_blockCrypto : CounterMode blockCrypto := by
  constructor
  · intro key block
    rfl
  · intro key iv position
    have hinside : position % 16 < 16 := Nat.mod_lt _ (by decide)
    change 7 = (replicate 16 7).getD (position % 16) 0
    rw [getD_eq_getElem?_getD, getElem?_replicate_of_lt hinside]
    rfl

theorem no_keystream_reuse_first :
    CounterMode blockCrypto ∧
      counterBlock (buildRtpIv (replicate 14 9) 3 0) 65535 ≠
        counterBlock (buildRtpIv (replicate 14 9) 3 1) 0 :=
  ⟨counterMode_blockCrypto, ((no_keystream_reuse blockCrypto counterMode_blockCrypto [] []).2.2
    (replicate 14 9) 3 3 0 1 rfl (by decide) (by decide) (by decide)).2 65535 0
      (by decide) (by decide)⟩

end Scshr.Crypto
