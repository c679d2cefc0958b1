import Scshr.Crypto.Srtp

/-! Rejected packets.  `SrtpDecryptor::decrypt` works in the caller's buffer and header and
tries up to four rollover counters on them; a packet it rejects leaves both and its own state
as they were, so it could as well not have come. -/
namespace Scshr.Crypto

open Common Lib

/-- The caller's packet buffer and header struct. -/
structure Datagram where
  buffer : Bytes
  header : RtpHeaderInfo
  deriving DecidableEq, Repr

namespace SrtpDecryptor

def tryDecryptInPlace (crypto : SrtpCrypto) (keys : SrtpKeys) (seq : UInt16) (ssrc roc : UInt32)
    (datagram : Datagram) : Bool × Datagram :=
  let pkt := datagram.buffer
  let bodyLen := pkt.length - srtpAuthTagLen
  if authTag crypto keys (pkt.take bodyLen) roc ≠ pkt.drop bodyLen then (false, datagram)
  else
    match headerLength pkt bodyLen with
    | none => (false, datagram)
    | some headerLen =>
        let second := pkt.getD 1 0
        let header : RtpHeaderInfo :=
          { ssrc := ssrc
            timestamp := be32At pkt 4
            seq := seq
            pt := second &&& 0x7F
            marker := second &&& 0x80 != 0
            headerLen := headerLen
            payloadLen := bodyLen - headerLen }
        if header.payloadLen = 0 then (true, ⟨pkt, header⟩)
        else
          let iv := buildRtpIv keys.salt ssrc (packetIndex roc seq)
          let payload := (pkt.drop headerLen).take header.payloadLen
          (true, ⟨pkt.take headerLen ++ crypto.crypt keys.cipherKey iv payload ++
            pkt.drop bodyLen, header⟩)

/-- The loop over the candidates; each finds the buffer as the one before left it. -/
def tryCandidates (crypto : SrtpCrypto) (decryptor : SrtpDecryptor) (seq : UInt16)
    (ssrc : UInt32) : List UInt32 → Datagram → Bool × Datagram × SrtpDecryptor
  | [], datagram => (false, datagram, decryptor)
  | roc :: rest, datagram =>
      match tryDecryptInPlace crypto decryptor.keys seq ssrc roc datagram with
      | (true, datagram) =>
          (true, datagram,
            { decryptor with
              states := updateState decryptor.states ssrc roc seq
              counts := decryptor.counts.insert ssrc
                ((decryptor.counts.lookup ssrc).getD 0 + 1) })
      | (false, datagram) => tryCandidates crypto decryptor seq ssrc rest datagram

def decryptInPlace (crypto : SrtpCrypto) (decryptor : SrtpDecryptor) (datagram : Datagram) :
    Bool × Datagram × SrtpDecryptor :=
  let pkt := datagram.buffer
  if pkt.length < rtpHeaderMin + srtpAuthTagLen then (false, datagram, decryptor)
  else
    let seq := UInt16.ofNat (be16At pkt 2)
    let ssrc := be32At pkt 8
    let guess := rocGuess (decryptor.states.lookup ssrc) seq
    tryCandidates crypto decryptor seq ssrc (candidates guess.1 guess.2) datagram

/-! ## In place and not -/

variable (crypto : SrtpCrypto) (decryptor : SrtpDecryptor)

theorem tryDecryptInPlace_eq (keys : SrtpKeys) (seq : UInt16) (ssrc roc : UInt32)
    (datagram : Datagram) :
    tryDecryptInPlace crypto keys seq ssrc roc datagram =
      match tryDecrypt crypto keys datagram.buffer seq ssrc roc with
      | none => (false, datagram)
      | some (header, plain) => (true, ⟨plain, header⟩) := by
  unfold tryDecryptInPlace tryDecrypt
  dsimp only
  split
  · rfl
  · cases hheader : headerLength datagram.buffer (datagram.buffer.length - srtpAuthTagLen) with
    | none => rfl
    | some headerLen =>
      dsimp only [Option.map_some]
      split
      · -- nothing to decrypt: the header ends where the tag begins
        next hempty =>
        have hwhole : datagram.buffer.length - srtpAuthTagLen = headerLen := by
          have hfits := (Option.filter_eq_some_iff.mp hheader).2
          rw [decide_eq_true_iff] at hfits
          omega
        rw [hwhole]
        simp [SrtpCrypto.crypt]
      · rfl

theorem tryCandidates_eq (seq : UInt16) (ssrc : UInt32) (rocs : List UInt32)
    (datagram : Datagram) :
    tryCandidates crypto decryptor seq ssrc rocs datagram =
      match rocs.findSome? fun roc =>
        (tryDecrypt crypto decryptor.keys datagram.buffer seq ssrc roc).map fun plain =>
          (roc, plain) with
      | none => (false, datagram, decryptor)
      | some (roc, header, plain) =>
          (true, ⟨plain, header⟩,
            { decryptor with
              states := updateState decryptor.states ssrc roc seq
              counts := decryptor.counts.insert ssrc
                ((decryptor.counts.lookup ssrc).getD 0 + 1) }) := by
  induction rocs with
  | nil => rfl
  | cons roc rest ih =>
    rw [tryCandidates, tryDecryptInPlace_eq, List.findSome?_cons]
    cases tryDecrypt crypto decryptor.keys datagram.buffer seq ssrc roc with
    | none => exact ih
    | some plain => rfl

theorem decryptInPlace_eq (datagram : Datagram) :
    decryptInPlace crypto decryptor datagram =
      match decrypt crypto decryptor datagram.buffer with
      | (none, next) => (false, datagram, next)
      | (some (header, plain), next) => (true, ⟨plain, header⟩, next) := by
  unfold decryptInPlace decrypt
  dsimp only
  split
  · rfl
  · rw [tryCandidates_eq]
    split <;> next hfound => simp only [hfound]

theorem decrypt_rejected (h : decrypt crypto decryptor pkt = (none, next)) : next = decryptor := by
  unfold decrypt at h
  dsimp only at h
  split at h
  · exact (congrArg Prod.snd h).symm
  · split at h
    · exact (congrArg Prod.snd h).symm
    · cases h

theorem decryptInPlace_rejected (h : (decryptInPlace crypto decryptor datagram).1 = false) :
    decryptInPlace crypto decryptor datagram = (false, datagram, decryptor) := by
  rw [decryptInPlace_eq] at h ⊢
  cases hdecrypt : decrypt crypto decryptor datagram.buffer with
  | mk result next =>
    rw [hdecrypt] at h
    cases result with
    | none => rw [decrypt_rejected crypto decryptor hdecrypt]
    | some plain => cases h

/-! ## A sequence of packets -/

structure Received where
  accepted : Bool
  datagram : Datagram
  deriving DecidableEq, Repr

def receiveAll (crypto : SrtpCrypto) :
    SrtpDecryptor → List Datagram → List Received × SrtpDecryptor
  | decryptor, [] => ([], decryptor)
  | decryptor, datagram :: rest =>
      let (accepted, left, next) := decryptInPlace crypto decryptor datagram
      let (results, last) := receiveAll crypto next rest
      (⟨accepted, left⟩ :: results, last)

theorem receiveAll_cons (datagram : Datagram) (rest : List Datagram) :
    receiveAll crypto decryptor (datagram :: rest) =
      (⟨(decryptInPlace crypto decryptor datagram).1,
          (decryptInPlace crypto decryptor datagram).2.1⟩ ::
          (receiveAll crypto (decryptInPlace crypto decryptor datagram).2.2 rest).1,
        (receiveAll crypto (decryptInPlace crypto decryptor datagram).2.2 rest).2) := rfl

def without {α : Type} : (Nat → Bool) → List α → List α
  | _, [] => []
  | removed, item :: rest =>
      if removed 0 then without (fun i => removed (i + 1)) rest
      else item :: without (fun i => removed (i + 1)) rest

theorem receiveAll_rejected (datagrams : List Datagram) {i : Nat}
    (hdatagram : datagrams[i]? = some datagram)
    (hresult : (receiveAll crypto decryptor datagrams).1[i]? = some result)
    (hrejected : result.accepted = false) : result.datagram = datagram := by
  induction datagrams generalizing decryptor i with
  | nil => cases hdatagram
  | cons first rest ih =>
    rw [receiveAll_cons] at hresult
    cases i with
    | zero =>
      rw [List.getElem?_cons_zero, Option.some_inj] at hdatagram hresult
      subst hdatagram hresult
      rw [decryptInPlace_rejected crypto decryptor hrejected]
    | succ i =>
      rw [List.getElem?_cons_succ] at hdatagram hresult
      exact ih _ hdatagram hresult

theorem receiveAll_without (datagrams : List Datagram) (removed : Nat → Bool)
    (hrejected : ∀ i result, removed i →
      (receiveAll crypto decryptor datagrams).1[i]? = some result → result.accepted = false) :
    receiveAll crypto decryptor (without removed datagrams) =
      (without removed (receiveAll crypto decryptor datagrams).1,
        (receiveAll crypto decryptor datagrams).2) := by
  induction datagrams generalizing decryptor removed with
  | nil => rfl
  | cons first rest ih =>
    have hrest : ∀ i result, removed (i + 1) →
        (receiveAll crypto (decryptInPlace crypto decryptor first).2.2 rest).1[i]? = some result →
          result.accepted = false :=
      fun i result hremoved hresult => hrejected (i + 1) result hremoved hresult
    have hlater := ih _ (fun i => removed (i + 1)) hrest
    by_cases hfirst : removed 0
    · -- the first packet was rejected, so the rest starts from the same state
      have hsame := decryptInPlace_rejected crypto decryptor (hrejected 0 _ hfirst rfl)
      rw [hsame] at hlater
      rw [without, if_pos hfirst, hlater, receiveAll_cons, hsame, without, if_pos hfirst]
    · rw [without, if_neg hfirst, receiveAll_cons, hlater, receiveAll_cons, without,
        if_neg hfirst]

/-- Rejected packets can be left out: the results of the others and the final state are the
same, and the buffer and header of a rejected packet are as they were. -/
theorem forged_packets_do_not_interfere (datagrams : List Datagram) (removed : Nat → Bool)
    (hrejected : ∀ i result, removed i →
      (receiveAll crypto decryptor datagrams).1[i]? = some result → result.accepted = false) :
    receiveAll crypto decryptor (without removed datagrams) =
        (without removed (receiveAll crypto decryptor datagrams).1,
          (receiveAll crypto decryptor datagrams).2) ∧
      ∀ (i : Nat) (datagram : Datagram) (result : Received), datagrams[i]? = some datagram →
        (receiveAll crypto decryptor datagrams).1[i]? = some result →
        result.accepted = false → result.datagram = datagram :=
  ⟨receiveAll_without crypto decryptor datagrams removed hrejected,
    fun _ _ _ hdatagram hresult =>
      receiveAll_rejected crypto decryptor datagrams hdatagram hresult⟩

end SrtpDecryptor

def zeroCrypto : SrtpCrypto where
  ecb _ block := block
  ctr _ _ _ := 0
  hmacSha1 _ _ := Vector.replicate 20 0

def blankHeader : RtpHeaderInfo := ⟨0, 0, 0, 0, false, 0, 0⟩

def forgedBetween : List Datagram :=
  [⟨[0x80, 96, 0, 1, 0, 0, 0, 0, 0, 0, 0, 7, 65] ++ List.replicate 10 0, blankHeader⟩,
    ⟨[0x80, 96, 0, 9, 0, 0, 0, 0, 0, 0, 0, 7, 66] ++ List.replicate 10 1, blankHeader⟩,
    ⟨[0x80, 96, 0, 2, 0, 0, 0, 0, 0, 0, 0, 7, 67] ++ List.replicate 10 0, blankHeader⟩]

theorem forged_packets_do_not_interfere_between :
    ((SrtpDecryptor.receiveAll zeroCrypto (.new zeroCrypto [] []) forgedBetween).1.map
        SrtpDecryptor.Received.accepted = [true, false, true]) ∧
      SrtpDecryptor.receiveAll zeroCrypto (.new zeroCrypto [] [])
          (SrtpDecryptor.without (· == 1) forgedBetween) =
        (SrtpDecryptor.without (· == 1)
            (SrtpDecryptor.receiveAll zeroCrypto (.new zeroCrypto [] []) forgedBetween).1,
          (SrtpDecryptor.receiveAll zeroCrypto (.new zeroCrypto [] []) forgedBetween).2) := by
  have hresults : (SrtpDecryptor.receiveAll zeroCrypto (.new zeroCrypto [] [])
      forgedBetween).1.map SrtpDecryptor.Received.accepted = [true, false, true] := by decide
  refine ⟨hresults, (SrtpDecryptor.forged_packets_do_not_interfere zeroCrypto
    (.new zeroCrypto [] []) forgedBetween (· == 1) ?_).1⟩
  intro i result hremoved hresult
  obtain rfl : i = 1 := by simpa using hremoved
  have hmiddle := congrArg (·[1]?) hresults
  simp only [List.getElem?_map, hresult] at hmiddle
  exact Option.some_inj.mp hmiddle

end Scshr.Crypto
