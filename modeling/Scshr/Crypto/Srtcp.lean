import Scshr.Crypto.SrtpRollover

/-! SRTCP (`crypto/srtp.cpp`).  The sender counts in 32 bits and encrypts under its whole
counter; the packet carries the low 31 bits of it next to the encryption flag. -/
namespace Scshr.Crypto

open Common Lib List

def buildRtcpIv (salt : Bytes) (ssrc index : UInt32) : Bytes :=
  List.zipWith (· ^^^ ·) (salt ++ [0, 0])
    ([0, 0, 0, 0] ++ putBe32 ssrc ++ [0, 0] ++ putBe32 index ++ [0, 0])

def SrtpKeys.deriveRtcp (crypto : SrtpCrypto) (masterKey masterSalt : Bytes) : SrtpKeys where
  cipherKey := srtpKdf crypto masterKey masterSalt 3 32
  authKey := srtpKdf crypto masterKey masterSalt 4 20
  salt := srtpKdf crypto masterKey masterSalt 5 14

def rtcpTag (crypto : SrtpCrypto) (keys : SrtpKeys) (body : Bytes) : Bytes :=
  (crypto.hmacSha1 keys.authKey body).toList.take srtpAuthTagLen

def encryptFlag : UInt32 := 0x80000000

def indexMask : UInt32 := 0x7FFFFFFF

structure SrtcpEncryptor where
  keys : SrtpKeys
  index : UInt32
  deriving DecidableEq

namespace SrtcpEncryptor

def new (crypto : SrtpCrypto) (masterKey masterSalt : Bytes) : SrtcpEncryptor :=
  ⟨SrtpKeys.deriveRtcp crypto masterKey masterSalt, 0⟩

def iv (encryptor : SrtcpEncryptor) (rtcp : Bytes) : Bytes :=
  buildRtcpIv encryptor.keys.salt (be32At rtcp 4) encryptor.index

def body (crypto : SrtpCrypto) (encryptor : SrtcpEncryptor) (rtcp : Bytes) : Bytes :=
  rtcp.take 8 ++ crypto.crypt encryptor.keys.cipherKey (encryptor.iv rtcp) (rtcp.drop 8) ++
    putBe32 (encryptFlag ||| encryptor.index)

/-- A message that is too short still takes an index. -/
def protect (crypto : SrtpCrypto) (encryptor : SrtcpEncryptor) (rtcp : Bytes) :
    Bytes × SrtcpEncryptor :=
  let next := { encryptor with index := encryptor.index + 1 }
  if rtcp.length < 8 then ([], next)
  else
    let body := encryptor.body crypto rtcp
    (body ++ rtcpTag crypto encryptor.keys body, next)

end SrtcpEncryptor

def unprotect (crypto : SrtpCrypto) (keys : SrtpKeys) (pkt : Bytes) : Option Bytes :=
  if pkt.length < 8 + 4 + srtpAuthTagLen then none
  else
    let bodyLen := pkt.length - srtpAuthTagLen
    if rtcpTag crypto keys (pkt.take bodyLen) ≠ pkt.drop bodyLen then none
    else
      let eIndex := be32At pkt (bodyLen - 4)
      let out := pkt.take (bodyLen - 4)
      if eIndex &&& encryptFlag = 0 then some out
      else
        let iv := buildRtcpIv keys.salt (be32At pkt 4) (eIndex &&& indexMask)
        if out.length > 8 then
          some (out.take 8 ++ crypto.crypt keys.cipherKey iv (out.drop 8))
        else some out

/-! ## The transmitted index -/

theorem flagged_and_flag (index : UInt32) : (encryptFlag ||| index) &&& encryptFlag ≠ 0 := by
  intro hzero
  have hbit := congrArg (fun value => value.toBitVec.getLsbD 31) hzero
  simp [encryptFlag] at hbit

theorem flagged_and_mask (index : UInt32) :
    (encryptFlag ||| index) &&& indexMask = index &&& indexMask := by
  have hdisjoint : encryptFlag &&& indexMask = 0 := by decide
  have hsplit : (encryptFlag ||| index) &&& indexMask =
      (encryptFlag &&& indexMask) ||| (index &&& indexMask) :=
    UInt32.toBitVec_inj.mp BitVec.and_or_distrib_right
  rw [hsplit, hdisjoint, UInt32.zero_or]

theorem and_indexMask (h : index.toNat < 2 ^ 31) : index &&& indexMask = index := by
  apply UInt32.toNat_inj.mp
  have hmask : indexMask.toNat = 2 ^ 31 - 1 := rfl
  rw [UInt32.toNat_and, hmask, Nat.and_two_pow_sub_one_eq_mod, Nat.mod_eq_of_lt h]

/-! ## The round trip -/

theorem crypt_crypt_iff (crypto : SrtpCrypto) (key left right data : Bytes) :
    crypto.crypt key left (crypto.crypt key right data) = data ↔
      ∀ i < data.length, crypto.ctr key left i = crypto.ctr key right i := by
  have hbyte : ∀ (byte first second : UInt8),
      byte ^^^ first ^^^ second = byte ↔ second = first := by
    intro byte first second
    rw [UInt8.xor_assoc]
    constructor
    · intro hsame
      have hcancel := congrArg (byte ^^^ ·) hsame
      simp only [← UInt8.xor_assoc, UInt8.xor_self, UInt8.zero_xor] at hcancel
      have hequal := congrArg (first ^^^ ·) hcancel
      simpa [← UInt8.xor_assoc] using hequal
    · intro hsame
      rw [hsame, UInt8.xor_self, UInt8.xor_zero]
  constructor
  · intro hsame i hi
    have hentry := congrArg (·[i]?) hsame
    simp only [SrtpCrypto.crypt, List.getElem?_mapIdx, List.getElem?_eq_getElem hi,
      Option.map_some, Option.some_inj] at hentry
    exact (hbyte _ _ _).mp hentry
  · intro hsame
    apply ext_getElem
    · simp
    · intro i hleft hright
      simp only [SrtpCrypto.crypt, getElem_mapIdx]
      exact (hbyte _ _ _).mpr (hsame i hright)

theorem be32At_take_append (hlong : 8 ≤ rtcp.length) (rest : Bytes) :
    be32At (rtcp.take 8 ++ rest) 4 = be32At rtcp 4 := by
  have hinside : 4 + 4 ≤ (rtcp.take 8).length := by
    rw [length_take]
    omega
  rw [be32At_append _ _ _ hinside, be32At, be32At, drop_take, take_take]
  rfl

section RoundTrip

variable (crypto : SrtpCrypto) (encryptor : SrtcpEncryptor) {rtcp : Bytes}

theorem unprotect_protect (hlong : 8 ≤ rtcp.length) :
    unprotect crypto encryptor.keys (encryptor.protect crypto rtcp).1 =
      some (rtcp.take 8 ++ crypto.crypt encryptor.keys.cipherKey
        (buildRtcpIv encryptor.keys.salt (be32At rtcp 4) (encryptor.index &&& indexMask))
        (crypto.crypt encryptor.keys.cipherKey (encryptor.iv rtcp) (rtcp.drop 8))) := by
  let front := rtcp.take 8 ++
    crypto.crypt encryptor.keys.cipherKey (encryptor.iv rtcp) (rtcp.drop 8)
  let flagged := putBe32 (encryptFlag ||| encryptor.index)
  let tag := rtcpTag crypto encryptor.keys (encryptor.body crypto rtcp)
  have hbody : encryptor.body crypto rtcp = front ++ flagged := rfl
  have hpacket : (encryptor.protect crypto rtcp).1 = front ++ flagged ++ tag := by
    rw [SrtcpEncryptor.protect]
    simp only [if_neg (Nat.not_lt.mpr hlong)]
    rfl
  have hfront : front.length = rtcp.length := by
    simp only [front, length_append, length_take, SrtpCrypto.length_crypt,
      length_drop]
    omega
  have hflagged : flagged.length = 4 := rfl
  have htag : tag.length = srtpAuthTagLen := by simp [tag, rtcpTag, srtpAuthTagLen]
  have hlength : (front ++ flagged ++ tag).length - srtpAuthTagLen = rtcp.length + 4 := by
    simp only [length_append]
    omega
  have hsigned : (front ++ flagged ++ tag).take (rtcp.length + 4) = front ++ flagged :=
    take_left' (by simp only [length_append]; omega)
  have hrest : (front ++ flagged ++ tag).drop (rtcp.length + 4) = tag :=
    drop_left' (by simp only [length_append]; omega)
  have hindex : be32At (front ++ flagged ++ tag) rtcp.length = encryptFlag ||| encryptor.index := by
    rw [← hfront]
    exact be32At_putBe32 front _ tag
  have hout : (front ++ flagged ++ tag).take rtcp.length = front := by
    rw [append_assoc]
    exact take_left' hfront
  have hssrc : be32At (front ++ flagged ++ tag) 4 = be32At rtcp 4 := by
    simp only [front, append_assoc]
    exact be32At_take_append hlong _
  have htake : front.take 8 = rtcp.take 8 := take_left' (by simp; omega)
  have hdrop : front.drop 8 =
      crypto.crypt encryptor.keys.cipherKey (encryptor.iv rtcp) (rtcp.drop 8) :=
    drop_left' (by simp; omega)
  have hcheck : rtcpTag crypto encryptor.keys (front ++ flagged) = tag := rfl
  rw [hpacket, unprotect, if_neg (by simp only [length_append]; omega)]
  simp only [hlength, hsigned, hrest, hcheck, ne_eq, not_true_eq_false, if_false,
    Nat.add_sub_cancel, hindex, hout, hssrc, flagged_and_flag, flagged_and_mask, hfront, htake,
    hdrop]
  split
  · rfl
  · next hshort =>
    have height : rtcp.length = 8 := by omega
    have hempty : rtcp.drop 8 = [] := drop_eq_nil_of_le (by omega)
    simp [front, hempty, SrtpCrypto.crypt]

end RoundTrip

/-- The round trip gives the message back while the counter is in the first half of its range,
and later only where the keystreams of the sender's and the receiver's IV agree. -/
theorem srtcp_round_trip_iff (crypto : SrtpCrypto) (masterKey masterSalt : Bytes) (index : UInt32)
    (rtcp : Bytes) (hlong : 8 ≤ rtcp.length) :
    let keys := SrtpKeys.deriveRtcp crypto masterKey masterSalt
    unprotect crypto keys ((SrtcpEncryptor.mk keys index).protect crypto rtcp).1 = some rtcp ↔
      index.toNat < 2 ^ 31 ∨ ∀ i < rtcp.length - 8,
        crypto.ctr keys.cipherKey (buildRtcpIv keys.salt (be32At rtcp 4) (index &&& indexMask)) i =
          crypto.ctr keys.cipherKey (buildRtcpIv keys.salt (be32At rtcp 4) index) i := by
  intro keys
  have hsplit : rtcp.take 8 ++ rtcp.drop 8 = rtcp := take_append_drop 8 rtcp
  have hrest : ∀ data, rtcp.take 8 ++ data = rtcp ↔ data = rtcp.drop 8 := by
    intro data
    constructor
    · intro hsame
      exact append_cancel_left (hsame.trans hsplit.symm)
    · intro hsame
      rw [hsame, hsplit]
  rw [unprotect_protect crypto ⟨keys, index⟩ hlong, Option.some_inj, hrest, crypt_crypt_iff,
    length_drop]
  constructor
  · exact .inr
  · rintro (hsmall | hstreams)
    · intro i _
      rw [SrtcpEncryptor.iv, and_indexMask hsmall]
    · exact hstreams

def ivCrypto : SrtpCrypto where
  ecb _ block := block
  ctr _ iv _ := iv.getD 10 0
  hmacSha1 _ _ := Vector.replicate 20 0

def shortReport : Bytes := [0x80, 201, 0, 1, 0, 0, 0, 7, 65]

theorem srtcp_round_trip_first :
    unprotect ivCrypto (SrtpKeys.deriveRtcp ivCrypto [] (List.replicate 14 0))
      ((SrtcpEncryptor.mk (SrtpKeys.deriveRtcp ivCrypto [] (List.replicate 14 0))
        5).protect ivCrypto shortReport).1 = some shortReport :=
  (srtcp_round_trip_iff ivCrypto [] (List.replicate 14 0) 5 shortReport (by decide)).mpr
    (.inl (by decide))

/-- At the counter `2 ^ 31` the receiver's IV lacks the bit the sender's IV has. -/
theorem srtcp_round_trip_fails :
    unprotect ivCrypto (SrtpKeys.deriveRtcp ivCrypto [] (List.replicate 14 0))
      ((SrtcpEncryptor.mk (SrtpKeys.deriveRtcp ivCrypto [] (List.replicate 14 0))
        0x80000000).protect ivCrypto shortReport).1 =
      some [0x80, 201, 0, 1, 0, 0, 0, 7, 193] := by
  decide

end Scshr.Crypto
