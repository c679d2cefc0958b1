import Mathlib.Data.List.Sort
import Scshr.Common.Bytes
import Scshr.Lib.AssocMap

/-! SRTP (`crypto/srtp.cpp`): key derivation, the packet IV, the encryptor and
the decryptor with its guesses of the rollover counter.  The AES block function,
its counter-mode keystream and HMAC-SHA1 come from libcrypto and are parameters. -/
namespace Scshr.Crypto

open Common Lib

structure SrtpCrypto where
  ecb : Bytes → Bytes → Bytes
  ctr : Bytes → Bytes → Nat → UInt8
  hmacSha1 : Bytes → Bytes → Vector UInt8 20

def SrtpCrypto.crypt (crypto : SrtpCrypto) (key iv data : Bytes) : Bytes :=
  data.mapIdx fun index byte => byte ^^^ crypto.ctr key iv index

def rtpHeaderMin : Nat := 12
def srtpAuthTagLen : Nat := 10

def addCounter : Nat → Bytes → Bytes
  | 0, bytes => bytes
  | _, [] => []
  | carry, byte :: rest =>
      UInt8.ofNat (carry + byte.toNat) :: addCounter ((carry + byte.toNat) / 256) rest

def srtpKdf (crypto : SrtpCrypto) (masterKey masterSalt : Bytes) (label : UInt8) (outLen : Nat) :
    Bytes :=
  let iv0 := List.zipWith (· ^^^ ·) (List.replicate 7 0 ++ label :: List.replicate 6 0) masterSalt
  let block (counter : Nat) := (addCounter counter (iv0 ++ [0, 0]).reverse).reverse
  ((List.range ((outLen + 15) / 16)).flatMap fun counter =>
    crypto.ecb masterKey (block counter)).take outLen

structure SrtpKeys where
  cipherKey : Bytes
  authKey : Bytes
  salt : Bytes
  deriving DecidableEq

def SrtpKeys.derive (crypto : SrtpCrypto) (masterKey masterSalt : Bytes) : SrtpKeys where
  cipherKey := srtpKdf crypto masterKey masterSalt 0 32
  authKey := srtpKdf crypto masterKey masterSalt 1 20
  salt := srtpKdf crypto masterKey masterSalt 2 14

def putBe48 (index : Nat) : Bytes :=
  [UInt8.ofNat (index >>> 40), UInt8.ofNat (index >>> 32), UInt8.ofNat (index >>> 24),
    UInt8.ofNat (index >>> 16), UInt8.ofNat (index >>> 8), UInt8.ofNat index]

def buildRtpIv (salt : Bytes) (ssrc : UInt32) (index : Nat) : Bytes :=
  List.zipWith (· ^^^ ·) (salt ++ [0, 0]) ([0, 0, 0, 0] ++ putBe32 ssrc ++ putBe48 index ++ [0, 0])

def packetIndex (roc : UInt32) (seq : UInt16) : Nat := roc.toNat * 65536 + seq.toNat

def authTag (crypto : SrtpCrypto) (keys : SrtpKeys) (body : Bytes) (roc : UInt32) : Bytes :=
  (crypto.hmacSha1 keys.authKey (body ++ putBe32 roc)).toList.take srtpAuthTagLen

structure RtpHeaderInfo where
  ssrc : UInt32
  timestamp : UInt32
  seq : UInt16
  pt : UInt8
  marker : Bool
  headerLen : Nat
  payloadLen : Nat
  deriving DecidableEq, Repr

structure SsrcState where
  roc : UInt32
  maxSeq : UInt16
  initialized : Bool
  deriving DecidableEq, Repr

structure SrtpDecryptor where
  keys : SrtpKeys
  states : AssocMap UInt32 SsrcState
  /-- A `uint64_t` that counts packets; it does not get near 2⁶⁴. -/
  counts : AssocMap UInt32 Nat

namespace SrtpDecryptor

def new (crypto : SrtpCrypto) (masterKey masterSalt : Bytes) : SrtpDecryptor :=
  ⟨SrtpKeys.derive crypto masterKey masterSalt, ∅, ∅⟩

def state (decryptor : SrtpDecryptor) (ssrc : UInt32) : Option SsrcState :=
  (decryptor.states.lookup ssrc).filter (·.initialized)

/-- The rollover counter guessed from the distance to the largest sequence
number, and the current one. -/
def rocGuess (state : Option SsrcState) (seq : UInt16) : UInt32 × UInt32 :=
  match state with
  | some state =>
      if state.initialized then
        let diff : Int := seq.toNat - state.maxSeq.toNat
        if diff > 0x7FFF then (if state.roc > 0 then state.roc - 1 else 0, state.roc)
        else if diff < -0x7FFF then (state.roc + 1, state.roc)
        else (state.roc, state.roc)
      else (0, 0)
  | none => (0, 0)

/-- Guess, current, guess plus and minus one, each once and in this order. -/
def candidates (guess current : UInt32) : List UInt32 :=
  [guess, current, guess + 1, if guess > 0 then guess - 1 else 0].foldl
    (fun cands roc => if roc ∈ cands then cands else cands ++ [roc]) []

/-- Length of the header with its CSRC list and extension, if the body has it. -/
def headerLength (pkt : Bytes) (bodyLen : Nat) : Option Nat :=
  let first := pkt.getD 0 0
  let fixed := rtpHeaderMin + (first &&& 0x0F).toNat * 4
  let length :=
    if (first >>> 4) &&& 1 ≠ 0 then
      if fixed + 4 > bodyLen then none else some (fixed + 4 + be16At pkt (fixed + 2) * 4)
    else some fixed
  length.filter (· ≤ bodyLen)

def tryDecrypt (crypto : SrtpCrypto) (keys : SrtpKeys) (pkt : Bytes) (seq : UInt16)
    (ssrc roc : UInt32) : Option (RtpHeaderInfo × Bytes) :=
  let bodyLen := pkt.length - srtpAuthTagLen
  if authTag crypto keys (pkt.take bodyLen) roc ≠ pkt.drop bodyLen then none
  else
    (headerLength pkt bodyLen).map fun headerLen =>
      let second := pkt.getD 1 0
      let header : RtpHeaderInfo :=
        { ssrc := ssrc
          timestamp := be32At pkt 4
          seq := seq
          pt := second &&& 0x7F
          marker := second &&& 0x80 != 0
          headerLen := headerLen
          payloadLen := bodyLen - headerLen }
      let iv := buildRtpIv keys.salt ssrc (packetIndex roc seq)
      let payload := (pkt.drop headerLen).take header.payloadLen
      (header, pkt.take headerLen ++ crypto.crypt keys.cipherKey iv payload ++ pkt.drop bodyLen)

theorem tryDecrypt_some {crypto : SrtpCrypto} {keys : SrtpKeys} {pkt : Bytes} {seq : UInt16}
    {ssrc roc : UInt32} {plain : RtpHeaderInfo × Bytes}
    (h : tryDecrypt crypto keys pkt seq ssrc roc = some plain) :
    authTag crypto keys (pkt.take (pkt.length - srtpAuthTagLen)) roc =
        pkt.drop (pkt.length - srtpAuthTagLen) ∧
      plain.1.seq = seq ∧ plain.1.ssrc = ssrc ∧ plain.1.timestamp = be32At pkt 4 := by
  unfold tryDecrypt at h
  dsimp only at h
  split at h
  · cases h
  · rename_i htag
    obtain ⟨headerLen, -, rfl⟩ := Option.map_eq_some_iff.mp h
    exact ⟨not_not.mp htag, rfl, rfl, rfl⟩

def updateState (states : AssocMap UInt32 SsrcState) (ssrc roc : UInt32) (seq : UInt16) :
    AssocMap UInt32 SsrcState :=
  match states.lookup ssrc with
  | some state =>
      if !state.initialized then states.insert ssrc ⟨roc, seq, true⟩
      else if packetIndex roc seq > packetIndex state.roc state.maxSeq then
        states.insert ssrc ⟨roc, seq, true⟩
      else states
  | none => states.insert ssrc ⟨roc, seq, true⟩

def decrypt (crypto : SrtpCrypto) (decryptor : SrtpDecryptor) (pkt : Bytes) :
    Option (RtpHeaderInfo × Bytes) × SrtpDecryptor :=
  if pkt.length < rtpHeaderMin + srtpAuthTagLen then (none, decryptor)
  else
    let seq := UInt16.ofNat (be16At pkt 2)
    let ssrc := be32At pkt 8
    let guess := rocGuess (decryptor.states.lookup ssrc) seq
    let attempt (roc : UInt32) :=
      (tryDecrypt crypto decryptor.keys pkt seq ssrc roc).map fun plain => (roc, plain)
    match (candidates guess.1 guess.2).findSome? attempt with
    | none => (none, decryptor)
    | some (roc, plain) =>
        (some plain,
          { decryptor with
            states := updateState decryptor.states ssrc roc seq
            counts := decryptor.counts.insert ssrc
              ((decryptor.counts.lookup ssrc).getD 0 + 1) })

/-- The loop of `primary_ssrc_group` over the sorted SSRCs, with the open group
`front ++ [back]`: a neighbour joins it until it has `grp` members. -/
def ssrcGroups (grp : Nat) (front : List UInt32) (back : UInt32) :
    List UInt32 → List (List UInt32)
  | [] => [front ++ [back]]
  | ssrc :: rest =>
      if ssrc - back ≤ 1 ∧ front.length + 1 < grp then ssrcGroups grp (front ++ [back]) ssrc rest
      else (front ++ [back]) :: ssrcGroups grp [] ssrc rest

def groupWeight (counts : AssocMap UInt32 Nat) (group : List UInt32) : Nat :=
  (group.map fun ssrc => (counts.lookup ssrc).getD 0).sum

/-- The group of a tier, the one with most packets first.  A negative tier
indexes behind all groups, which the source does not check. -/
def primarySsrcGroup (decryptor : SrtpDecryptor) (tilesPerFrame tier : Int) :
    Option (List UInt32) :=
  match decryptor.counts.keys.insertionSort (· ≤ ·) with
  | [] => some []
  | first :: rest =>
      let groups := ssrcGroups (max 1 tilesPerFrame).toNat [] first rest
      -- insertion keeps groups of equal weight in their order, like `std::stable_sort`
      let ranked := groups.insertionSort fun left right =>
        groupWeight decryptor.counts left ≥ groupWeight decryptor.counts right
      if tier < 0 then none else ranked[min tier.toNat (ranked.length - 1)]?

end SrtpDecryptor

structure RtpMessage where
  payload : Bytes
  pt : UInt8
  marker : Bool
  deriving DecidableEq, Repr

structure SrtpEncryptor where
  keys : SrtpKeys
  ssrc : UInt32
  seq : UInt32
  roc : UInt32
  ts : UInt32
  deriving DecidableEq

namespace SrtpEncryptor

def new (crypto : SrtpCrypto) (masterKey masterSalt : Bytes) (ssrc : UInt32) : SrtpEncryptor :=
  ⟨SrtpKeys.derive crypto masterKey masterSalt, ssrc, 0, 0, 0⟩

def iv (encryptor : SrtpEncryptor) : Bytes :=
  buildRtpIv encryptor.keys.salt encryptor.ssrc
    (packetIndex encryptor.roc encryptor.seq.toUInt16)

def body (crypto : SrtpCrypto) (encryptor : SrtpEncryptor) (message : RtpMessage) : Bytes :=
  let seq := encryptor.seq.toUInt16
  let second := (message.pt &&& 0x7F) ||| (if message.marker then 0x80 else 0)
  [0x80, second] ++ putBe16 seq.toNat ++ putBe32 encryptor.ts ++ putBe32 encryptor.ssrc ++
    crypto.crypt encryptor.keys.cipherKey encryptor.iv message.payload

def encrypt (crypto : SrtpCrypto) (encryptor : SrtpEncryptor) (message : RtpMessage) :
    Bytes × SrtpEncryptor :=
  let body := encryptor.body crypto message
  (body ++ authTag crypto encryptor.keys body encryptor.roc,
    { encryptor with
      seq := if encryptor.seq + 1 > 0xFFFF then 0 else encryptor.seq + 1
      roc := if encryptor.seq + 1 > 0xFFFF then encryptor.roc + 1 else encryptor.roc
      ts := encryptor.ts + 480 })

end SrtpEncryptor

end Scshr.Crypto
