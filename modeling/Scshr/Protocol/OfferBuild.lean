import Scshr.Protocol.BplistWriter
import Scshr.Protocol.Offers

/-! The offers of `protocol/offers.cpp`: the protobuf writers, `build_mediablob` and
`create_offers`, and `extract_offer_ssrc`, which takes an offer apart again.  miniz, the
random source and the wall clock are parameters. -/
namespace Scshr.Protocol.Offers

open Common Lib Bplist

/-- The loop of `varint`, for as many bytes with a continuation bit as are allowed. -/
def varintBytes : Nat → Nat → Bytes
  | 0, v => [UInt8.ofNat (v % 128)]
  | more + 1, v =>
    if 0x7F < v then UInt8.ofNat (v % 128 + 128) :: varintBytes more (v / 128)
    else [UInt8.ofNat (v % 128)]

/-- `varint`; a `uint64_t` is down to one bit after nine rounds. -/
def varint (v : Nat) : Bytes := varintBytes 9 v

def fieldVarint (fn v : Nat) : Bytes := varint (fn * 8) ++ varint v

def fieldBytes (fn : Nat) (v : Bytes) : Bytes := varint (fn * 8 + 2) ++ (varint v.length ++ v)

structure Tier where
  f1 : Nat
  f2 : Nat
  f3 : Option Nat

def audioF9Tiers : List Tier :=
  [⟨0, 40000000, some 12288⟩, ⟨0, 6000000, some 131072⟩, ⟨4074, 0, some 16384⟩, ⟨16, 4100, none⟩,
    ⟨0, 75000000, some 524288⟩, ⟨0, 20000000, some 98304⟩, ⟨4, 6500, none⟩,
    ⟨0, 60000000, some 262144⟩, ⟨1, 299, none⟩, ⟨0, 100000000, some 1048576⟩]

def Tier.body (tier : Tier) : Bytes :=
  0x08 :: varint tier.f1 ++ 0x10 :: varint tier.f2 ++
    match tier.f3 with
    | some f3 => 0x18 :: varint f3
    | none => []

def appleAudioF9 : Bytes :=
  audioF9Tiers.flatMap fun tier => 0x4a :: varint tier.body.length ++ tier.body

def hevcParamsLtr : Bytes :=
  textBytes "FLS;MS:-1;LF:-1;LTR;CABAC;POS:0;EOD:1;HTS:2;RR:3;AR:16/9,5/8;XR:16/9,5/8;"

def hevcParamsNoLtr : Bytes :=
  textBytes "FLS;MS:-1;LF:-1;CABAC;POS:0;EOD:1;HTS:2;RR:3;AR:16/9,5/8;XR:16/9,5/8;"

def avcParams : Bytes :=
  textBytes "FLS;LF:-1;POS:5;EOD:1;HTS:2;RR:3;POSE:4;AR:16/9,5/8;XR:16/9,5/8;"

inductive Codec where
  | hevc
  | avc
  | both
  deriving DecidableEq, Repr

structure OfferOptions where
  codec : Codec := .both
  tilesPerFrame : Int := 4
  ltrp : Bool := true
  audioEnabled : Bool := true
  sessionIdVideo : UInt32 := 0
  sessionIdAudio : UInt32 := 0
  timestampNs : UInt64 := 0
  callidVideo : Bytes := []
  callidAudio : Bytes := []

def ltrpEnabledFor (codec : Codec) (want : Bool) : Bool := codec != .avc && want

def endpointString (tag : UInt8) (text : Bytes) : Bytes :=
  tag :: UInt8.ofNat (min text.length 127) :: text.take 127

def remoteEndpointInfo : Bytes :=
  [0x08, 0x00, 0x10, 0x01] ++ endpointString 0x1A (textBytes "Windows-AMD64") ++
    endpointString 0x22 (textBytes "1.0.0") ++ endpointString 0x2A (textBytes "10")

def resolution (kind : Nat) : Bytes :=
  fieldVarint 1 1 ++ fieldVarint 2 kind ++ fieldVarint 3 50115 ++ fieldVarint 4 0

def hevcBank (ltrpOn : Bool) : Bytes :=
  fieldVarint 1 123 ++ fieldBytes 2 (resolution 1) ++ fieldBytes 2 (resolution 2) ++
    fieldBytes 2 (resolution 1) ++ fieldBytes 2 (resolution 2) ++
    fieldBytes 3 (if ltrpOn then hevcParamsLtr else hevcParamsNoLtr) ++ fieldVarint 4 1

def avcBank : Bytes :=
  fieldVarint 1 100 ++ fieldBytes 2 (resolution 1) ++ fieldBytes 2 (resolution 2) ++
    fieldBytes 3 avcParams ++ fieldVarint 4 14

/-- The banks; the server answers the one of field 123 with H.264. -/
def banks (codec : Codec) (ltrpOn : Bool) : Bytes :=
  match codec with
  | .avc => fieldBytes 3 (hevcBank ltrpOn)
  | .hevc => fieldBytes 3 avcBank
  | .both => fieldBytes 3 (hevcBank ltrpOn) ++ fieldBytes 3 avcBank

def asUInt64 (value : Int) : Nat := (value % 2 ^ 64).toNat

/-- What follows the session id in `desc`, for mode 7. -/
def videoRest (o : OfferOptions) : Bytes :=
  let ltrpOn := ltrpEnabledFor o.codec o.ltrp
  fieldVarint 2 ltrpOn.toNat ++ banks o.codec ltrpOn ++ fieldVarint 6 (asUInt64 o.tilesPerFrame) ++
    fieldVarint 7 ltrpOn.toNat ++ fieldVarint 8 63 ++ fieldVarint 9 1 ++ fieldVarint 12 1

def audioRest (o : OfferOptions) : Bytes :=
  fieldVarint 2 0 ++ fieldVarint 3 0 ++ fieldVarint 4 (if o.audioEnabled then 24191 else 1000) ++
    fieldVarint 5 0 ++ fieldVarint 6 0

def descField (mode : Nat) (sessionId : UInt32) (o : OfferOptions) : Except String Bytes :=
  if mode = 7 then .ok (fieldBytes 5 (fieldVarint 1 sessionId.toNat ++ videoRest o))
  else if mode = 8 then .ok (fieldBytes 3 (fieldVarint 1 sessionId.toNat ++ audioRest o))
  else .error "unsupported negotiation mode"

def blobRest (timestamp : UInt64) : Bytes :=
  fieldBytes 6 (textBytes "iShareScreen 0.1.0") ++ fieldVarint 8 0 ++ appleAudioF9 ++
    fieldVarint 13 timestamp.toNat ++ fieldVarint 14 2 ++ fieldVarint 16 0 ++ fieldVarint 18 1

def buildMediablob (mode : Nat) (sessionId : UInt32) (timestamp : UInt64) (o : OfferOptions) :
    Except String Bytes := do
  let desc ← descField mode sessionId o
  .ok (fieldVarint 1 1 ++ (fieldVarint 2 1 ++ (desc ++ blobRest timestamp)))

/-- miniz: inflating undoes deflating, a stream starts with the byte for a 32 KiB window, and
it stays in the buffer of `mz_compressBound`. -/
structure Zlib where
  compress : Bytes → Bytes
  inflate : Bytes → Option Bytes
  inflate_compress : ∀ raw, inflate (compress raw) = some raw
  compress_head : ∀ raw, (compress raw).head? = some 0x78
  compress_length : ∀ raw, (compress raw).length ≤
    max (128 + raw.length * 110 / 100) (128 + raw.length + (raw.length / (31 * 1024) + 1) * 5)

def Zlib.decompress (z : Zlib) (data : Bytes) : Option Bytes :=
  if data.isEmpty then none else z.inflate data

/-- What `random_bytes`, `wall_time_ns` and `uuid4_upper` give while one offer is built. -/
structure Fresh where
  sessionId : UInt32
  wallTimeNs : UInt64
  callid : Bytes
  callid_ascii : ∀ b ∈ callid, b < 0x80

def mediaBlobKey : Bytes := textBytes "avcMediaStreamNegotiatorMediaBlob"
def modeKey : Bytes := textBytes "avcMediaStreamNegotiatorMode"
def callidKey : Bytes := textBytes "avcMediaStreamOptionCallID"
def endpointKey : Bytes := textBytes "avcMediaStreamOptionRemoteEndpointInfo"

theorem offerKeys_ascending :
    [mediaBlobKey, modeKey, callidKey, endpointKey].Pairwise (· < ·) := by
  decide

def offerDict (mode : Nat) (blob callid : Bytes) : FlatDict where
  entries := [(mediaBlobKey, .data blob), (modeKey, .int mode), (callidKey, .str callid),
    (endpointKey, .data remoteEndpointInfo)]
  ascending := List.pairwise_map.mp offerKeys_ascending

def offerPlist (z : Zlib) (fresh : Fresh) (o : OfferOptions) (mode : Nat) : Except String Bytes :=
  let wanted := if mode = 7 then o.sessionIdVideo else o.sessionIdAudio
  let sid := if wanted = 0 then fresh.sessionId else wanted
  let ts := if o.timestampNs = 0 then fresh.wallTimeNs else o.timestampNs
  let named := if mode = 7 then o.callidVideo else o.callidAudio
  let callid := if named.isEmpty then fresh.callid else named
  do
    let blob ← buildMediablob mode sid ts o
    .ok (dump (offerDict mode (z.compress blob) callid))

def createOffers (z : Zlib) (video audio : Fresh) (o : OfferOptions) :
    Except String (Bytes × Bytes) := do
  let videoOffer ← offerPlist z video o 7
  let audioOffer ← offerPlist z audio o 8
  .ok (videoOffer, audioOffer)

/-- The decompressed blob of a loaded property list, where both extractors look for it. -/
def mediaBlob (z : Zlib) : Value → Option Bytes
  | .dict entries =>
    match entries.lookup mediaBlobKey with
    | some (.data blob) => z.decompress blob
    | _ => none
  | _ => none

def ExtractOfferSsrc (z : Zlib) (plist : Bytes) (isVideo : Bool) (result : Option UInt32) : Prop :=
  ∃ loaded, load plist = .ok loaded ∧
    match loaded.bind (mediaBlob z) with
    | none => result = none
    | some d => Returns (ssrcStep d (ssrcField isVideo)) 0 result

end Scshr.Protocol.Offers
