import Scshr.Common.Bytes
import Scshr.Lib.Chunks

/-! Session audio on the wire: the agent's `packetize` (`tools/mac-tunnel/audio_packet.go`) and
the viewer's `parse_session_audio_packet` (`media/session_audio.cpp`).  Samples of the tap are
of any type; what the two sides must agree on is their sixteen bits. -/
namespace Scshr.Media.SessionAudio

open Common Lib List

def audioMagic : Bytes := textBytes "SCAU"

def audioHeaderLen : Nat := 16

def audioMaxFrames : Nat := 340

/-! ## Little-endian fields -/

def putLe16 (value : UInt16) : Bytes :=
  [UInt8.ofNat value.toNat, UInt8.ofNat (value.toNat / 2 ^ 8)]

def putLe32 (value : UInt32) : Bytes :=
  [UInt8.ofNat value.toNat, UInt8.ofNat (value.toNat / 2 ^ 8), UInt8.ofNat (value.toNat / 2 ^ 16),
    UInt8.ofNat (value.toNat / 2 ^ 24)]

def le16At (bytes : Bytes) (off : Nat) : UInt16 :=
  UInt16.ofNat ((bytes.getD off 0).toNat + (bytes.getD (off + 1) 0).toNat * 2 ^ 8)

def le32At (bytes : Bytes) (off : Nat) : UInt32 :=
  UInt32.ofNat ((bytes.getD off 0).toNat + (bytes.getD (off + 1) 0).toNat * 2 ^ 8 +
    (bytes.getD (off + 2) 0).toNat * 2 ^ 16 + (bytes.getD (off + 3) 0).toNat * 2 ^ 24)

/-! ## The sender -/

section Packetize

variable {α : Type}

/-- The comparison with zero and the conversion of a sample, as its sixteen bits. -/
structure SampleFormat (α : Type) where
  isZero : α → Bool
  toInt16 : α → UInt16

structure PcmBuffer (α : Type) where
  pcm : List α
  channels : Nat
  rate : UInt32

/-- Left and right of a frame; an index past the samples would panic. -/
def frameAt (buffer : PcmBuffer α) (i : Nat) : Option (α × α) := do
  let l ← buffer.pcm[i * buffer.channels]?
  let r ← if buffer.channels > 1 then buffer.pcm[i * buffer.channels + 1]? else some l
  some (l, r)

variable (format : SampleFormat α)

def audioPacket (seq : UInt16) (rate : UInt32) (chunk : List (α × α)) : Bytes :=
  audioMagic ++ [1, 2] ++ putLe16 seq ++ putLe32 rate ++ putLe16 (UInt16.ofNat chunk.length) ++
    [0, 0] ++
    chunk.flatMap fun frame => putLe16 (format.toInt16 frame.1) ++ putLe16 (format.toInt16 frame.2)

def silent (chunk : List (α × α)) : Bool :=
  chunk.all fun frame => format.isZero frame.1 && format.isZero frame.2

def packetizeChunk (buffer : PcmBuffer α) (frames off : Nat) (sent : UInt16 × List Bytes) :
    Option (UInt16 × List Bytes) := do
  let n := min (frames - off) audioMaxFrames
  let chunk ← (List.range n).mapM fun i => frameAt buffer (off + i)
  if silent format chunk then some sent
  else some (sent.1 + 1, sent.2 ++ [audioPacket format sent.1 buffer.rate chunk])

def offsets (frames : Nat) : List Nat :=
  (List.range ((frames + audioMaxFrames - 1) / audioMaxFrames)).map (· * audioMaxFrames)

def packetize (sent : UInt16 × List Bytes) (buffer : PcmBuffer α) :
    Option (UInt16 × List Bytes) :=
  if buffer.channels < 1 then some sent
  else
    let frames := buffer.pcm.length / buffer.channels
    (offsets frames).foldlM (fun sent off => packetizeChunk format buffer frames off sent) sent

def packetizeAll (buffers : List (PcmBuffer α)) (seq : UInt16) : Option (UInt16 × List Bytes) :=
  buffers.foldlM (packetize format) (seq, [])

end Packetize

/-! ## The receiver -/

structure SessionAudioPacket (φ : Type) where
  seq : UInt16
  sampleRate : UInt32
  pcm : List φ
  deriving DecidableEq

/-- The conversion of a sample to a float is a parameter. -/
def parseSessionAudioPacket {φ : Type} (toFloat : UInt16 → φ) (p : Bytes) :
    Option (SessionAudioPacket φ) :=
  if p.length < 16 ∨ p.take 4 ≠ textBytes "SCAU" ∨ p.getD 4 0 ≠ 1 ∨ p.getD 5 0 ≠ 2 then none
  else
    let sampleRate := le32At p 8
    let frames := (le16At p 12).toNat
    if frames = 0 ∨ sampleRate < 8000 ∨ p.length < 16 + frames * 4 then none
    else some
      { seq := le16At p 6
        sampleRate := sampleRate
        pcm := (List.range (frames * 2)).map fun i => toFloat (le16At p (16 + i * 2)) }

/-! ## What is to arrive -/

section Abstract

variable {α : Type}

def stereo (buffer : PcmBuffer α) : List (α × α) :=
  (List.range (buffer.pcm.length / buffer.channels)).filterMap (frameAt buffer)

/-- The chunks of a buffer that do not consist of zeros, with the rate. -/
def loud (format : SampleFormat α) (buffer : PcmBuffer α) : List (UInt32 × List (α × α)) :=
  ((chunksOf audioMaxFrames (stereo buffer)).filter fun chunk => !silent format chunk).map
    (buffer.rate, ·)

end Abstract

/-! ## Fields -/

theorem le16At_putLe16 (value : UInt16) (rest : Bytes) :
    le16At (putLe16 value ++ rest) 0 = value := by
  apply UInt16.toNat_inj.mp
  have hlt := value.toNat_lt
  simp only [le16At, putLe16, cons_append, nil_append, getD_cons_zero,
    getD_cons_succ, UInt8.toNat_ofNat', UInt16.toNat_ofNat']
  omega

theorem le32At_putLe32 (value : UInt32) (rest : Bytes) :
    le32At (putLe32 value ++ rest) 0 = value := by
  apply UInt32.toNat_inj.mp
  have hlt := value.toNat_lt
  simp only [le32At, putLe32, cons_append, nil_append, getD_cons_zero,
    getD_cons_succ, UInt8.toNat_ofNat', UInt32.toNat_ofNat']
  omega

theorem le16At_append (front rest : Bytes) (off : Nat) :
    le16At (front ++ rest) (front.length + off) = le16At rest off := by
  simp only [le16At, getD_eq_getElem?_getD, Nat.add_assoc, List.getElem?_append_right,
    Nat.le_add_right, Nat.add_sub_cancel_left]

theorem le32At_append (front rest : Bytes) (off : Nat) :
    le32At (front ++ rest) (front.length + off) = le32At rest off := by
  simp only [le32At, getD_eq_getElem?_getD, Nat.add_assoc, List.getElem?_append_right,
    Nat.le_add_right, Nat.add_sub_cancel_left]

theorem map_le16At_flatMap (samples : List UInt16) :
    (List.range samples.length).map (fun i => le16At (samples.flatMap putLe16) (i * 2)) =
      samples := by
  induction samples with
  | nil => rfl
  | cons sample samples ih =>
    have hrest : ∀ i, le16At (putLe16 sample ++ samples.flatMap putLe16) ((i + 1) * 2) =
        le16At (samples.flatMap putLe16) (i * 2) := by
      intro i
      rw [Nat.succ_mul, Nat.add_comm]
      exact le16At_append (putLe16 sample) _ (i * 2)
    rw [length_cons, range_succ_eq_map, map_cons, map_map, flatMap_cons]
    simp only [Function.comp_def, Nat.succ_eq_add_one, hrest, ih, Nat.zero_mul, le16At_putLe16]

/-! ## One packet -/

section Packet

variable {α φ : Type} (format : SampleFormat α)

def samples (chunk : List (α × α)) : List UInt16 :=
  chunk.flatMap fun frame => [format.toInt16 frame.1, format.toInt16 frame.2]

theorem length_samples (chunk : List (α × α)) :
    (samples format chunk).length = chunk.length * 2 := by
  induction chunk with
  | nil => rfl
  | cons frame chunk ih =>
    rw [samples, flatMap_cons, length_append, ← samples, ih]
    simp only [length_cons, length_nil]
    omega

theorem audioPacket_eq (seq : UInt16) (rate : UInt32) (chunk : List (α × α)) :
    audioPacket format seq rate chunk = audioMagic ++ [1, 2] ++ putLe16 seq ++ putLe32 rate ++
      putLe16 (UInt16.ofNat chunk.length) ++ [0, 0] ++ (samples format chunk).flatMap putLe16 := by
  simp only [audioPacket, samples, flatMap_assoc, flatMap_cons, flatMap_nil,
    append_nil]

theorem length_audioPacket (seq : UInt16) (rate : UInt32) (chunk : List (α × α)) :
    (audioPacket format seq rate chunk).length = audioHeaderLen + chunk.length * 4 := by
  have hbytes : ((samples format chunk).flatMap putLe16).length = chunk.length * 4 := by
    simp only [length_flatMap, putLe16, length_cons, length_nil, map_const',
      sum_replicate_nat, length_samples]
    omega
  rw [audioPacket_eq, length_append, hbytes]
  rfl

def received (toFloat : UInt16 → φ) (seq : UInt16) (rate : UInt32) (chunk : List (α × α)) :
    SessionAudioPacket φ :=
  ⟨seq, rate, (samples format chunk).map toFloat⟩

theorem parse_audioPacket (toFloat : UInt16 → φ) (seq : UInt16) (hrate : 8000 ≤ rate)
    (hchunk : chunk ≠ []) (hfits : chunk.length ≤ audioMaxFrames) :
    parseSessionAudioPacket toFloat (audioPacket format seq rate chunk) =
      some (received format toFloat seq rate chunk) := by
  have hlength := length_audioPacket format seq rate chunk
  have hpos := length_pos_iff.mpr hchunk
  unfold audioHeaderLen at hlength
  unfold audioMaxFrames at hfits
  have hseq : le16At (audioPacket format seq rate chunk) 6 = seq := by
    simp only [audioPacket, append_assoc]
    rw [← append_assoc audioMagic]
    exact (le16At_append (audioMagic ++ [1, 2]) _ 0).trans (le16At_putLe16 seq _)
  have hsampleRate : le32At (audioPacket format seq rate chunk) 8 = rate := by
    rw [audioPacket, append_assoc, append_assoc, append_assoc]
    exact (le32At_append (audioMagic ++ [1, 2] ++ putLe16 seq) _ 0).trans (le32At_putLe32 rate _)
  have hframes : (le16At (audioPacket format seq rate chunk) 12).toNat = chunk.length := by
    rw [audioPacket, append_assoc, append_assoc]
    have hfield := (le16At_append (audioMagic ++ [1, 2] ++ putLe16 seq ++ putLe32 rate) _ 0).trans
      (le16At_putLe16 (UInt16.ofNat chunk.length) ([0, 0] ++ chunk.flatMap fun frame =>
        putLe16 (format.toInt16 frame.1) ++ putLe16 (format.toInt16 frame.2)))
    refine (congrArg UInt16.toNat hfield).trans ?_
    rw [UInt16.toNat_ofNat']
    omega
  have hpcm : (List.range (chunk.length * 2)).map
      (fun i => toFloat (le16At (audioPacket format seq rate chunk) (16 + i * 2))) =
        (samples format chunk).map toFloat := by
    have hsample : ∀ i, le16At (audioPacket format seq rate chunk) (16 + i * 2) =
        le16At ((samples format chunk).flatMap putLe16) (i * 2) := by
      intro i
      rw [audioPacket_eq]
      exact le16At_append (audioMagic ++ [1, 2] ++ putLe16 seq ++ putLe32 rate ++
        putLe16 (UInt16.ofNat chunk.length) ++ [0, 0]) _ (i * 2)
    simp only [hsample]
    rw [← length_samples format]
    exact map_map.symm.trans
      (congrArg (List.map toFloat) (map_le16At_flatMap (samples format chunk)))
  have hmagic : (audioPacket format seq rate chunk).take 4 = textBytes "SCAU" := rfl
  have hversion : (audioPacket format seq rate chunk).getD 4 0 = 1 := rfl
  have hchannels : (audioPacket format seq rate chunk).getD 5 0 = 2 := rfl
  have hslow : ¬ rate < 8000 := UInt32.not_lt.mpr hrate
  unfold parseSessionAudioPacket
  rw [if_neg (by rw [hmagic, hversion, hchannels, hlength]; simp)]
  simp only [hframes, hsampleRate, hlength, hseq, hpcm]
  rw [if_neg]
  · rfl
  · rintro (hzero | hlow | hcut)
    · omega
    · exact hslow hlow
    · omega

end Packet

/-! ## Frames -/

section Frames

variable {α : Type} {buffer : PcmBuffer α}

theorem frameAt_isSome (hchannels : 1 ≤ buffer.channels)
    (hi : i < buffer.pcm.length / buffer.channels) : (frameAt buffer i).isSome := by
  have hend : (i + 1) * buffer.channels ≤ buffer.pcm.length :=
    (Nat.mul_le_mul_right _ hi).trans (Nat.div_mul_le_self ..)
  rw [Nat.succ_mul] at hend
  have hleft : i * buffer.channels < buffer.pcm.length := by omega
  unfold frameAt
  rw [List.getElem?_eq_getElem hleft]
  split
  · next hmany =>
    have hright : i * buffer.channels + 1 < buffer.pcm.length := by omega
    rw [List.getElem?_eq_getElem hright]
    rfl
  · rfl

theorem length_stereo (hchannels : 1 ≤ buffer.channels) :
    (stereo buffer).length = buffer.pcm.length / buffer.channels :=
  (filterMap_range fun _ => frameAt_isSome hchannels).1

theorem frameAt_eq (hchannels : 1 ≤ buffer.channels)
    (hi : i < buffer.pcm.length / buffer.channels) : frameAt buffer i = (stereo buffer)[i]? :=
  ((filterMap_range fun _ => frameAt_isSome hchannels).2 i hi).symm

end Frames

/-! ## The loop -/

section Loop

variable {α : Type} (format : SampleFormat α)

def sentState (seq : UInt16) (chunks : List (UInt32 × List (α × α))) : UInt16 × List Bytes :=
  (seq + UInt16.ofNat chunks.length,
    chunks.mapIdx fun i chunk => audioPacket format (seq + UInt16.ofNat i) chunk.1 chunk.2)

theorem sentState_snoc (seq : UInt16) (chunks : List (UInt32 × List (α × α)))
    (rate : UInt32) (chunk : List (α × α)) :
    sentState format seq (chunks ++ [(rate, chunk)]) =
      ((sentState format seq chunks).1 + 1,
        (sentState format seq chunks).2 ++
          [audioPacket format (sentState format seq chunks).1 rate chunk]) := by
  simp only [sentState, length_append, length_singleton, mapIdx_concat,
    UInt16.ofNat_add, UInt16.add_assoc]
  rfl

variable {buffer : PcmBuffer α}

theorem packetizeChunk_eq (hchannels : 1 ≤ buffer.channels) (seq : UInt16)
    (chunks : List (UInt32 × List (α × α))) (hoff : off < (stereo buffer).length) :
    packetizeChunk format buffer (buffer.pcm.length / buffer.channels) off
        (sentState format seq chunks) =
      some (sentState format seq (chunks ++
        ([((stereo buffer).drop off).take audioMaxFrames].filter
          fun chunk => !silent format chunk).map (buffer.rate, ·))) := by
  have hlength := length_stereo hchannels
  rw [← hlength]
  have hread : (List.range (min ((stereo buffer).length - off) audioMaxFrames)).mapM
      (fun i => frameAt buffer (off + i)) =
        some (((stereo buffer).drop off).take audioMaxFrames) := by
    rw [mapM_range_eq (stereo buffer) (fun i hi => frameAt_eq hchannels (by omega)) (by omega)]
    congr 1
    rw [← take_take, ← length_drop]
    exact take_of_length_le (length_take_le' ..)
  unfold packetizeChunk
  simp only [hread, Option.bind_eq_bind, Option.bind_some]
  cases hsilent : silent format (((stereo buffer).drop off).take audioMaxFrames) with
  | true => simp [hsilent]
  | false => simp [hsilent, sentState_snoc]

theorem foldlM_packetizeChunk (hchannels : 1 ≤ buffer.channels) (seq : UInt16)
    (chunks : List (UInt32 × List (α × α))) {offs : List Nat}
    (hoffs : ∀ off ∈ offs, off < (stereo buffer).length) :
    offs.foldlM (fun sent off => packetizeChunk format buffer
        (buffer.pcm.length / buffer.channels) off sent) (sentState format seq chunks) =
      some (sentState format seq (chunks ++
        ((offs.map fun off => ((stereo buffer).drop off).take audioMaxFrames).filter
          fun chunk => !silent format chunk).map (buffer.rate, ·))) := by
  induction offs generalizing chunks with
  | nil => simp
  | cons off offs ih =>
    rw [foldlM_cons, packetizeChunk_eq format hchannels seq chunks (hoffs off (by simp))]
    refine (ih _ fun later hlater => hoffs later (mem_cons_of_mem off hlater)).trans ?_
    rw [map_cons, append_assoc, ← map_append, ← filter_append,
      singleton_append]

theorem packetize_eq (hchannels : 1 ≤ buffer.channels) (seq : UInt16)
    (chunks : List (UInt32 × List (α × α))) :
    packetize format (sentState format seq chunks) buffer =
      some (sentState format seq (chunks ++ loud format buffer)) := by
  have hlength := length_stereo hchannels
  have hoffs : ∀ off ∈ offsets (buffer.pcm.length / buffer.channels),
      off < (stereo buffer).length := by
    intro off hoff
    obtain ⟨k, hk, rfl⟩ := mem_map.mp hoff
    have hlt := mem_range.mp hk
    unfold audioMaxFrames at hlt ⊢
    omega
  unfold packetize
  rw [if_neg (by omega)]
  dsimp only
  rw [foldlM_packetizeChunk format hchannels seq chunks hoffs, loud, chunksOf, offsets, ← hlength,
    map_map]
  rfl

theorem packetizeAll_eq (hchannels : ∀ buffer ∈ buffers, 1 ≤ buffer.channels) (seq : UInt16) :
    packetizeAll format buffers seq =
      some (sentState format seq (buffers.flatMap (loud format))) := by
  have hfold : ∀ (rest : List (PcmBuffer α)) (chunks : List (UInt32 × List (α × α))),
      (∀ buffer ∈ rest, 1 ≤ buffer.channels) →
      rest.foldlM (packetize format) (sentState format seq chunks) =
        some (sentState format seq (chunks ++ rest.flatMap (loud format))) := by
    intro rest
    induction rest with
    | nil => simp
    | cons buffer rest ih =>
      intro chunks hrest
      rw [foldlM_cons, packetize_eq format (hrest buffer (by simp)) seq chunks]
      refine (ih _ fun later hlater => hrest later (mem_cons_of_mem buffer hlater)).trans ?_
      rw [flatMap_cons, append_assoc]
  have hstart : ((seq, []) : UInt16 × List Bytes) = sentState format seq [] := by
    simp [sentState]
  rw [packetizeAll, hstart]
  exact hfold buffers [] hchannels

end Loop

/-- Session audio survives the wire: the packets of a series of buffers are the loud chunks of
the buffers, numbered on from the counter, and the receiver reads each of them back. -/
theorem session_audio_survives {α φ : Type} (format : SampleFormat α) (toFloat : UInt16 → φ)
    (seq : UInt16) (buffers : List (PcmBuffer α))
    (hbuffers : ∀ buffer ∈ buffers, 1 ≤ buffer.channels ∧ 8000 ≤ buffer.rate) :
    ∃ last packets, packetizeAll format buffers seq = some (last, packets) ∧
      (∀ packet ∈ packets, packet.length ≤ 1376) ∧
      packets.map (parseSessionAudioPacket toFloat) =
        (buffers.flatMap (loud format)).mapIdx (fun i chunk =>
          some (received format toFloat (seq + UInt16.ofNat i) chunk.1 chunk.2)) ∧
      ∀ buffer ∈ buffers, (chunksOf audioMaxFrames (stereo buffer)).flatten = stereo buffer := by
  have hchunks : ∀ chunk ∈ buffers.flatMap (loud format),
      8000 ≤ chunk.1 ∧ chunk.2 ≠ [] ∧ chunk.2.length ≤ audioMaxFrames := by
    intro chunk hchunk
    obtain ⟨buffer, hbuffer, hloud⟩ := mem_flatMap.mp hchunk
    obtain ⟨frames, hframes, rfl⟩ := mem_map.mp hloud
    exact ⟨(hbuffers buffer hbuffer).2,
      chunksOf_ne_nil (by decide) (mem_filter.mp hframes).1⟩
  refine ⟨_, _, packetizeAll_eq format (fun buffer hbuffer => (hbuffers buffer hbuffer).1) seq,
    ?_, ?_, fun buffer _ => flatten_chunksOf (by decide) (stereo buffer)⟩
  · intro packet hpacket
    obtain ⟨i, hi, rfl⟩ := mem_mapIdx.mp hpacket
    have hfits := (hchunks _ (getElem_mem hi)).2.2
    rw [length_audioPacket]
    unfold audioMaxFrames at hfits
    unfold audioHeaderLen
    omega
  · apply ext_getElem
    · simp
    · intro i _ hi
      rw [length_mapIdx] at hi
      obtain ⟨hrate, hne, hfits⟩ := hchunks _ (getElem_mem hi)
      simp only [getElem_map, getElem_mapIdx]
      exact parse_audioPacket format toFloat _ hrate hne hfits

def natFormat : SampleFormat Nat where
  isZero := (· == 0)
  toInt16 := UInt16.ofNat

theorem session_audio_survives_mono :
    (∀ buffer ∈ [PcmBuffer.mk [7, 0, 9] 1 48000], 1 ≤ buffer.channels ∧ 8000 ≤ buffer.rate) ∧
      ∃ last packets, packetizeAll natFormat [⟨[7, 0, 9], 1, 48000⟩] 65535 = some (last, packets) ∧
        packets.map (parseSessionAudioPacket id) = [some ⟨65535, 48000, [7, 7, 0, 0, 9, 9]⟩] := by
  have hbuffers : ∀ buffer ∈ [PcmBuffer.mk [7, 0, 9] 1 48000],
      1 ≤ buffer.channels ∧ 8000 ≤ buffer.rate := by decide
  obtain ⟨last, packets, hrun, -, hparsed, -⟩ :=
    session_audio_survives natFormat id 65535 _ hbuffers
  exact ⟨hbuffers, last, packets, hrun, hparsed⟩

end Scshr.Media.SessionAudio
