import Scshr.Protocol.BplistRoundTrip
import Scshr.Protocol.ProtobufRead

/-! The session id of an offer: it is the first field of the stream's description, which
`extract_offer_ssrc` finds again behind compression and property list. -/
namespace Scshr.Protocol.Offers

open Common Lib Bplist
open List hiding flatten

section Blob

variable {sessionId : UInt32} {target : Nat} {more : Bytes}

theorem innerSsrc_first (sessionId : UInt32) (rest : Bytes) :
    innerSsrc (fieldVarint 1 sessionId.toNat ++ rest) = some sessionId := by
  have placed := (placed_self (fieldVarint 1 sessionId.toNat ++ rest)).left
  have tag := readVarint_placed (by decide) placed.left
  have small : sessionId.toNat < 2 ^ 64 := Nat.lt_of_lt_of_le sessionId.toNat_lt (by decide)
  have value := readVarint_placed small placed.right
  unfold innerSsrc
  rw [tag]
  dsimp only [bind, Option.bind]
  rw [if_pos (by decide), value]
  dsimp only
  rw [UInt32.ofNat_toNat]

variable {d : Bytes} {pos : Nat}

theorem ssrcStep_number (target : Nat) (short : d.length < 2 ^ 63) (number_lt : number < 2 ^ 29)
    (value : UInt64) (placed : Placed d pos (fieldVarint number value.toNat)) :
    ssrcStep d target pos = .next (pos + (fieldVarint number value.toNat).length) := by
  unfold ssrcStep
  rw [ProtoField.visit_skip short ⟨number, number_lt, .varint value⟩ placed
    fun body wrong => nomatch wrong]
  rfl

theorem ssrcStep_message (short : d.length < 2 ^ 63) (target_lt : target < 2 ^ 29)
    (placed : Placed d pos (fieldBytes target (fieldVarint 1 sessionId.toNat ++ more))) :
    ssrcStep d target pos = .done (some sessionId) := by
  have entered := ProtoField.visit_enter short
    ⟨target, target_lt, .bytes (fieldVarint 1 sessionId.toNat ++ more)⟩ rfl placed
  unfold ssrcStep
  rw [entered]
  dsimp only
  rw [innerSsrc_first]

theorem ssrc_found (short : d.length < 2 ^ 63) (target_lt : target < 2 ^ 29)
    (placed : Placed d 0 (fieldVarint 1 1 ++ (fieldVarint 2 1 ++
      (fieldBytes target (fieldVarint 1 sessionId.toNat ++ more) ++ rest)))) :
    Returns (ssrcStep d target) 0 (some sessionId) := by
  have first := ssrcStep_number target short (by decide) 1 placed.left
  have second := ssrcStep_number target short (by decide) 1 placed.right.left
  have third := ssrcStep_message short target_lt placed.right.right.left
  exact .next first (.next second (.done third))

theorem fieldVarint_length (fn v : Nat) : (fieldVarint fn v).length ≤ 20 := by
  have tag := (varint_length (fn * 8)).2
  have value := (varint_length v).2
  unfold fieldVarint
  rw [length_append]
  omega

theorem fieldBytes_length (fn : Nat) (v : Bytes) : (fieldBytes fn v).length ≤ 20 + v.length := by
  have tag := (varint_length (fn * 8 + 2)).2
  have size := (varint_length v.length).2
  unfold fieldBytes
  rw [length_append, length_append]
  omega

theorem params_length : hevcParamsLtr.length ≤ 80 ∧ hevcParamsNoLtr.length ≤ 80 ∧
    avcParams.length ≤ 80 := by
  unfold hevcParamsLtr hevcParamsNoLtr avcParams
  refine ⟨?_, ?_, ?_⟩ <;> rw [textBytes_ofList] <;> decide

theorem resolution_length (kind : Nat) : (resolution kind).length ≤ 80 := by
  have number := fieldVarint_length
  unfold resolution
  simp only [length_append]
  linarith [number 1 1, number 2 kind, number 3 50115, number 4 0]

theorem hevcBank_length (ltrpOn : Bool) : (hevcBank ltrpOn).length ≤ 540 := by
  have number := fieldVarint_length
  have message := fieldBytes_length
  have params : (if ltrpOn then hevcParamsLtr else hevcParamsNoLtr).length ≤ 80 := by
    split
    · exact params_length.1
    · exact params_length.2.1
  unfold hevcBank
  simp only [length_append]
  linarith [number 1 123, number 4 1, message 2 (resolution 1), message 2 (resolution 2),
    message 3 (if ltrpOn then hevcParamsLtr else hevcParamsNoLtr), resolution_length 1,
    resolution_length 2]

theorem avcBank_length : avcBank.length ≤ 340 := by
  have number := fieldVarint_length
  have message := fieldBytes_length
  unfold avcBank
  simp only [length_append]
  linarith [number 1 100, number 4 14, message 2 (resolution 1), message 2 (resolution 2),
    message 3 avcParams, resolution_length 1, resolution_length 2, params_length.2.2]

theorem banks_length (codec : Codec) (ltrpOn : Bool) : (banks codec ltrpOn).length ≤ 920 := by
  have hevc := fieldBytes_length 3 (hevcBank ltrpOn)
  have avc := fieldBytes_length 3 avcBank
  have hevcSize := hevcBank_length ltrpOn
  have avcSize := avcBank_length
  cases codec with
  | both =>
    show (fieldBytes 3 (hevcBank ltrpOn) ++ fieldBytes 3 avcBank).length ≤ 920
    rw [length_append]
    omega
  | avc => exact hevc.trans (by omega)
  | hevc => exact avc.trans (by omega)

theorem videoRest_length (o : OfferOptions) : (videoRest o).length ≤ 1040 := by
  have number := fieldVarint_length
  have bank := banks_length o.codec (ltrpEnabledFor o.codec o.ltrp)
  unfold videoRest
  simp only [length_append]
  linarith [number 2 (ltrpEnabledFor o.codec o.ltrp).toNat, number 6 (asUInt64 o.tilesPerFrame),
    number 7 (ltrpEnabledFor o.codec o.ltrp).toNat, number 8 63, number 9 1, number 12 1]

theorem audioRest_length (o : OfferOptions) : (audioRest o).length ≤ 100 := by
  have number := fieldVarint_length
  unfold audioRest
  simp only [length_append]
  linarith [number 2 0, number 3 0, number 4 (if o.audioEnabled then 24191 else 1000),
    number 5 0, number 6 0]

theorem appleAudioF9_length : appleAudioF9.length ≤ 200 := by
  decide

theorem blobRest_length (timestamp : UInt64) : (blobRest timestamp).length ≤ 400 := by
  have number := fieldVarint_length
  have agent : (textBytes "iShareScreen 0.1.0").length ≤ 20 := by
    rw [textBytes_ofList]
    decide
  unfold blobRest
  simp only [length_append]
  linarith [number 8 0, number 13 timestamp.toNat, number 14 2, number 16 0, number 18 1,
    fieldBytes_length 6 (textBytes "iShareScreen 0.1.0"), appleAudioF9_length]

end Blob

section Identity

def blobWith (target : Nat) (sessionId : UInt32) (more rest : Bytes) : Bytes :=
  fieldVarint 1 1 ++ (fieldVarint 2 1 ++
    (fieldBytes target (fieldVarint 1 sessionId.toNat ++ more) ++ rest))

variable {more rest callid : Bytes}

theorem blobWith_length (target : Nat) (sessionId : UInt32) (moreShort : more.length ≤ 1040)
    (restShort : rest.length ≤ 400) : (blobWith target sessionId more rest).length ≤ 1540 := by
  have number := fieldVarint_length
  unfold blobWith
  simp only [length_append]
  have message := fieldBytes_length target (fieldVarint 1 sessionId.toNat ++ more)
  rw [length_append] at message
  linarith [number 1 1, number 2 1, number 1 sessionId.toNat]

variable (z : Zlib)

theorem Zlib.decompress_compress (raw : Bytes) : z.decompress (z.compress raw) = some raw := by
  have head := z.compress_head raw
  unfold Zlib.decompress
  rw [if_neg, z.inflate_compress]
  intro empty
  rw [isEmpty_iff.mp empty] at head
  cases head

theorem lookup_of_mem {entries : List (Bytes × Scalar)}
    (ascending : entries.Pairwise fun left right => left.1 < right.1) {key : Bytes}
    (mem : (key, scalar) ∈ entries) :
    (entries.map fun entry => (entry.1, entry.2.value)).lookup key = some scalar.value := by
  induction entries with
  | nil => exact absurd mem not_mem_nil
  | cons entry entries ih =>
    obtain ⟨first, others⟩ := pairwise_cons.mp ascending
    rcases mem_cons.mp mem with rfl | later
    · exact lookup_cons_self
    · have below := first _ later
      have other : (key == entry.1) = false := by
        rw [beq_eq_false_iff_ne]
        intro same
        rw [same] at below
        exact List.lt_irrefl entry.1 below
      rw [List.map_cons, List.lookup_cons, other]
      exact ih others later

theorem mediaBlob_of_mem {dict : FlatDict} {raw : Bytes}
    (mem : (mediaBlobKey, .data (z.compress raw)) ∈ dict.entries) :
    mediaBlob z dict.value = some raw := by
  unfold FlatDict.value mediaBlob
  dsimp only
  rw [lookup_of_mem dict.ascending mem]
  exact z.decompress_compress raw

theorem key_ascii : ∀ key ∈ [mediaBlobKey, modeKey, callidKey, endpointKey],
    ∀ b ∈ key, b < 0x80 := by
  intro key mem
  apply ascii_of_all
  revert key
  decide

theorem offerDict_plain (mode_lt : mode < 2 ^ 63) (blob : Bytes) (ascii : ∀ b ∈ callid, b < 0x80) :
    (offerDict mode blob callid).Plain := by
  intro entry mem
  refine ⟨bmpText_of_ascii (key_ascii _ (mem_map_of_mem mem)), ?_⟩
  have value : ∀ scalar ∈ [.data blob, .int mode, .str callid, .data remoteEndpointInfo],
      Scalar.Plain scalar := by
    simp only [forall_mem_cons, Scalar.Plain, bmpText_of_ascii ascii]
    exact ⟨trivial, by omega, trivial, trivial, forall_mem_nil _⟩
  exact value _ (mem_map_of_mem mem)

theorem length_foldl_addScalar (scalars objs : List Scalar) :
    (scalars.foldl addScalar objs).length ≤ objs.length + scalars.length := by
  induction scalars generalizing objs with
  | nil => exact Nat.le_refl _
  | cons scalar scalars ih =>
    have added : (addScalar objs scalar).length ≤ objs.length + 1 := by
      unfold addScalar
      split
      · exact Nat.le_succ _
      · rw [length_append, length_singleton]
    have rest := ih (addScalar objs scalar)
    rw [foldl_cons, length_cons]
    omega

theorem length_objects_le (dict : FlatDict) :
    (objects dict).length ≤ 2 * dict.entries.length + 1 := by
  have few := length_foldl_addScalar (dict.entries.map (fun entry => Scalar.str entry.1) ++
    dict.entries.map Prod.snd) []
  rw [length_append, length_map, length_map, length_nil] at few
  rw [length_objects]
  unfold flatten
  omega

def offerWith (z : Zlib) (isVideo : Bool) (sessionId : UInt32) (more rest callid : Bytes) : Bytes :=
  dump (offerDict (if isVideo then 7 else 8)
    (z.compress (blobWith (ssrcField isVideo) sessionId more rest)) callid)

theorem extract_offerWith (isVideo : Bool) (sessionId : UInt32) (moreShort : more.length ≤ 1040)
    (restShort : rest.length ≤ 400) (ascii : ∀ b ∈ callid, b < 0x80)
    (small : (offerWith z isVideo sessionId more rest callid).length < 2 ^ 32) :
    ExtractOfferSsrc z (offerWith z isVideo sessionId more rest callid) isVideo
      (some sessionId) := by
  have size := blobWith_length (ssrcField isVideo) sessionId moreShort restShort
  have target : ssrcField isVideo < 2 ^ 29 := by cases isVideo <;> decide
  have mode : (if isVideo then 7 else 8) < 2 ^ 63 := by cases isVideo <;> decide
  unfold offerWith at small ⊢
  have read := load_dump _ (offerDict_plain mode _ ascii)
    ((length_objects_le _).trans (show 9 ≤ 100000 by decide)) small
  refine ⟨_, read, ?_⟩
  dsimp only [Option.bind]
  rw [mediaBlob_of_mem z mem_cons_self]
  exact ssrc_found (by omega) target (placed_self _)

def Fresh.timestamp (fresh : Fresh) (o : OfferOptions) : UInt64 :=
  if o.timestampNs = 0 then fresh.wallTimeNs else o.timestampNs

def Fresh.callidFor (fresh : Fresh) (named : Bytes) : Bytes :=
  if named.isEmpty then fresh.callid else named

theorem Fresh.callidFor_ascii (fresh : Fresh) (ascii : ∀ b ∈ named, b < 0x80) :
    ∀ b ∈ fresh.callidFor named, b < 0x80 := by
  unfold Fresh.callidFor
  split
  · exact fresh.callid_ascii
  · exact ascii

theorem offerPlist_video (fresh : Fresh) (o : OfferOptions) (chosen : o.sessionIdVideo ≠ 0) :
    offerPlist z fresh o 7 = .ok (offerWith z true o.sessionIdVideo (videoRest o)
      (blobRest (fresh.timestamp o)) (fresh.callidFor o.callidVideo)) := by
  unfold offerPlist
  dsimp only
  rw [if_pos rfl, if_neg chosen, if_pos rfl]
  rfl

theorem offerPlist_audio (fresh : Fresh) (o : OfferOptions) (chosen : o.sessionIdAudio ≠ 0) :
    offerPlist z fresh o 8 = .ok (offerWith z false o.sessionIdAudio (audioRest o)
      (blobRest (fresh.timestamp o)) (fresh.callidFor o.callidAudio)) := by
  unfold offerPlist
  dsimp only
  have other : ¬ (8 : Nat) = 7 := by decide
  rw [if_neg other, if_neg chosen, if_neg other]
  rfl

theorem createOffers_eq (video audio : Fresh) (o : OfferOptions) (videoId : o.sessionIdVideo ≠ 0)
    (audioId : o.sessionIdAudio ≠ 0) :
    createOffers z video audio o = .ok
      (offerWith z true o.sessionIdVideo (videoRest o) (blobRest (video.timestamp o))
        (video.callidFor o.callidVideo),
      offerWith z false o.sessionIdAudio (audioRest o) (blobRest (audio.timestamp o))
        (audio.callidFor o.callidAudio)) := by
  unfold createOffers
  rw [offerPlist_video z video o videoId, offerPlist_audio z audio o audioId]
  rfl

/-- Both offers are made, and each gives its session id back if it is shorter than 2³² bytes. -/
theorem offer_identity (z : Zlib) (video audio : Fresh) (o : OfferOptions)
    (videoId : o.sessionIdVideo ≠ 0) (audioId : o.sessionIdAudio ≠ 0)
    (videoAscii : ∀ b ∈ o.callidVideo, b < 0x80) (audioAscii : ∀ b ∈ o.callidAudio, b < 0x80) :
    ∃ videoOffer audioOffer, createOffers z video audio o = .ok (videoOffer, audioOffer) ∧
      (videoOffer.length < 2 ^ 32 →
        ExtractOfferSsrc z videoOffer true (some o.sessionIdVideo)) ∧
      (audioOffer.length < 2 ^ 32 →
        ExtractOfferSsrc z audioOffer false (some o.sessionIdAudio)) := by
  refine ⟨_, _, createOffers_eq z video audio o videoId audioId, ?_, ?_⟩
  · exact extract_offerWith z true _ (videoRest_length o) (blobRest_length _)
      (video.callidFor_ascii videoAscii)
  · exact extract_offerWith z false _ ((audioRest_length o).trans (by decide))
      (blobRest_length _) (audio.callidFor_ascii audioAscii)

/-! A compressor that stores: a zlib stream of blocks that are not compressed. -/

def adler32 (raw : Bytes) : Nat :=
  let sums := raw.foldl (fun (a, b) x => ((a + x.toNat) % 65521, (b + a + x.toNat) % 65521)) (1, 0)
  sums.2 * 65536 + sums.1

def storedBlock (last : UInt8) (data : Bytes) : Bytes :=
  last :: UInt8.ofNat data.length :: UInt8.ofNat (data.length / 256) ::
    ~~~ UInt8.ofNat data.length :: ~~~ UInt8.ofNat (data.length / 256) :: data

def storedBlocks : Nat → Bytes → Bytes
  | 0, raw => storedBlock 1 raw
  | n + 1, raw => storedBlock 0 (raw.take 65535) ++ storedBlocks n (raw.drop 65535)

def readStored : Nat → Bytes → Option (Bytes × Bytes)
  | fuel + 1, last :: low :: high :: _ :: _ :: rest =>
    let len := low.toNat + 256 * high.toNat
    if rest.length < len then none
    else if last = 1 then some (rest.take len, rest.drop len)
    else (readStored fuel (rest.drop len)).map fun (data, tail) => (rest.take len ++ data, tail)
  | _, _ => none

theorem readStored_block {data : Bytes} (short : data.length ≤ 65535) (fuel : Nat) (last : UInt8)
    (tail : Bytes) :
    readStored (fuel + 1) (storedBlock last data ++ tail) =
      if last = 1 then some (data, tail)
      else (readStored fuel tail).map fun (more, tail) => (data ++ more, tail) := by
  have len : (UInt8.ofNat data.length).toNat + 256 * (UInt8.ofNat (data.length / 256)).toNat =
      data.length := by
    rw [UInt8.toNat_ofNat', UInt8.toNat_ofNat']
    omega
  unfold storedBlock
  simp only [cons_append, readStored, len, length_append, take_left,
    drop_left]
  rw [if_neg (by omega)]

theorem readStored_blocks (n fuel : Nat) (enough : n < fuel) (raw : Bytes)
    (short : raw.length ≤ 65535 * (n + 1)) (tail : Bytes) :
    readStored fuel (storedBlocks n raw ++ tail) = some (raw, tail) := by
  induction n generalizing raw fuel with
  | zero =>
    obtain ⟨fuel, rfl⟩ := Nat.exists_eq_add_one_of_ne_zero (Nat.ne_of_gt enough)
    exact readStored_block (by omega) fuel 1 tail
  | succ n ih =>
    obtain ⟨fuel, rfl⟩ := Nat.exists_eq_add_one_of_ne_zero (Nat.ne_of_gt (Nat.zero_lt_of_lt enough))
    have rest : (raw.drop 65535).length ≤ 65535 * (n + 1) := by
      rw [length_drop]
      omega
    rw [storedBlocks, append_assoc,
      readStored_block (length_take_le _ _) fuel 0, if_neg (by decide),
      ih fuel (by omega) _ rest, Option.map_some]
    dsimp only
    rw [take_append_drop]

theorem length_storedBlocks (n : Nat) {raw : Bytes} (enough : 65535 * n ≤ raw.length) :
    (storedBlocks n raw).length = 5 * (n + 1) + raw.length := by
  induction n generalizing raw with
  | zero => exact Nat.add_comm raw.length 5
  | succ n ih =>
    have rest : 65535 * n ≤ (raw.drop 65535).length := by
      rw [length_drop]
      omega
    have first : (storedBlock 0 (raw.take 65535)).length = 65535 + 5 := by
      show (raw.take 65535).length + 5 = _
      rw [length_take_of_le (by omega)]
    rw [storedBlocks, length_append, first, ih rest, length_drop]
    omega

def storing : Zlib where
  compress raw :=
    0x78 :: 0x01 :: (storedBlocks (raw.length / 65535) raw ++ putBe 4 (adler32 raw))
  inflate data := do
    let (raw, tail) ← readStored data.length (data.drop 2)
    if tail = putBe 4 (adler32 raw) then some raw else none
  inflate_compress raw := by
    have length := length_storedBlocks (raw.length / 65535) (Nat.mul_div_le raw.length 65535)
    have enough : raw.length / 65535 < (0x78 :: 0x01 ::
        (storedBlocks (raw.length / 65535) raw ++ putBe 4 (adler32 raw))).length := by
      rw [length_cons, length_cons, length_append]
      omega
    have blocks := readStored_blocks _ _ enough raw (by omega) (putBe 4 (adler32 raw))
    simp only [drop_succ_cons, drop_zero, blocks, Option.bind_eq_bind,
      Option.bind_some, if_true]
  compress_head _ := rfl
  compress_length raw := by
    have length := length_storedBlocks (raw.length / 65535) (Nat.mul_div_le raw.length 65535)
    have sum := putBe_length 4 (adler32 raw)
    rw [length_cons, length_cons, length_append]
    omega

def sampleFresh : Fresh := ⟨7, 1700000000, [0x41], ascii_of_all rfl⟩

theorem offer_identity_sample :
    ∃ videoOffer audioOffer,
      createOffers storing sampleFresh sampleFresh
        { codec := .hevc, sessionIdVideo := 12345, sessionIdAudio := 999 } =
          .ok (videoOffer, audioOffer) ∧
      ExtractOfferSsrc storing videoOffer true (some 12345) ∧
      ExtractOfferSsrc storing audioOffer false (some 999) := by
  obtain ⟨videoOffer, audioOffer, made, video, audio⟩ := offer_identity storing sampleFresh
    sampleFresh { codec := .hevc, sessionIdVideo := 12345, sessionIdAudio := 999 } (by decide)
    (by decide) (ascii_of_all rfl) (ascii_of_all rfl)
  have short : (createOffers storing sampleFresh sampleFresh
      { codec := .hevc, sessionIdVideo := 12345, sessionIdAudio := 999 }).map
        (fun offers => decide (offers.1.length < 2 ^ 32 ∧ offers.2.length < 2 ^ 32)) =
          .ok true := by
    decide +kernel
  rw [made] at short
  have both := of_decide_eq_true (Except.ok.inj short)
  exact ⟨videoOffer, audioOffer, made, video both.1, audio both.2⟩

end Identity

end Scshr.Protocol.Offers
