import Scshr.Media.Burst
import Scshr.Media.HevcPacketizer
import Scshr.Media.HevcSlice
import Scshr.Media.PacketThread

/-! `gather_initial_burst` (`media/burst.cpp`): the datagrams of the session start
are decrypted and grouped by SSRC and timestamp, and every group with a marker
packet on a tile's SSRC is reassembled at once into parameter sets and the units
the decoder is seeded with. -/
namespace Scshr.Media

open Common Lib Crypto

/-! ## Parameter sets -/

structure AvcConfig where
  sps : Bytes
  pps : Bytes
  deriving DecidableEq, Repr

def findText (payload text : Bytes) (start : Nat) : Option Nat :=
  (List.range (payload.length + 1 - text.length)).find? fun index =>
    decide (start ≤ index) && (payload.drop index).take text.length == text

/-- One of the two loops of `parse_avc_config`: `count` sized sets from `p` on, of
which the first that is not empty is kept. -/
def readSets (payload : Bytes) : Nat → Nat → Bytes → Option (Bytes × Nat)
  | 0, p, kept => some (kept, p)
  | count + 1, p, kept =>
      if p + 2 > payload.length then none
      else
        let ln := be16At payload p
        if p + 2 + ln > payload.length then none
        else
          readSets payload count (p + 2 + ln)
            (if kept = [] then (payload.drop (p + 2)).take ln else kept)

def parseAvcConfig (payload : Bytes) : Option AvcConfig := do
  let a1 := findText payload (textBytes "avc1") 0
  let index ← findText payload (textBytes "avcC") (a1.getD 0)
  let p := index + 4
  if p + 6 > payload.length then none
  else
    let numSps := (payload.getD (p + 5) 0 &&& 0x1F).toNat
    let (sps, p) ← readSets payload numSps (p + 6) []
    if p + 1 > payload.length then none
    else
      let (pps, _) ← readSets payload (payload.getD p 0).toNat (p + 1) []
      if sps = [] ∨ pps = [] then none else some ⟨sps, pps⟩

/-! ## Decryption and grouping -/

abbrev BurstGroup := Key × List BurstPkt

/-- A packet joins the group of its key.  The list holds the groups in the order
of their first packets: the map `groups` and the vector `order` in one. -/
def queueBurst (k : Key) (pkt : BurstPkt) : List BurstGroup → List BurstGroup
  | [] => [(k, [pkt])]
  | (seen, pkts) :: rest =>
      if seen = k then (seen, pkts ++ [pkt]) :: rest else (seen, pkts) :: queueBurst k pkt rest

structure Collected where
  groups : List BurstGroup
  dec : SrtpDecryptor

def burstPkt (h : RtpHeaderInfo) (buf : Bytes) (t : Int) : BurstPkt :=
  ⟨h.seq, h.marker, (buf.drop h.headerLen).take h.payloadLen, t⟩

def Collected.add (crypto : SrtpCrypto) (state : Collected) (datagram : Bytes × Int) : Collected :=
  match state.dec.decrypt crypto datagram.1 with
  | (none, dec) => { state with dec := dec }
  | (some (h, buf), dec) =>
      { groups := queueBurst (key h.ssrc h.timestamp) (burstPkt h buf datagram.2) state.groups
        dec := dec }

def collectBurst (crypto : SrtpCrypto) (dec : SrtpDecryptor) (raw : List (Bytes × Int)) :
    Collected :=
  raw.foldl (Collected.add crypto) ⟨[], dec⟩

def ssrcTiles (primary : List UInt32) : AssocMap UInt32 Nat :=
  (primary.insertionSort (· ≤ ·)).zipIdx.foldl
    (fun tiles entry => tiles.insert entry.1 entry.2) ∅

def selectTiles (dec : SrtpDecryptor) (tilesPerFrame qualityTier : Int) :
    Option (AssocMap UInt32 Nat) :=
  (dec.primarySsrcGroup tilesPerFrame qualityTier).map ssrcTiles

/-! ## Harvesting the groups -/

structure StoredNal where
  nal : Bytes
  /-- The packets of the group that the unit was reassembled from; the source
  stores the bytes alone. -/
  origin : List BurstPkt
  deriving DecidableEq, Repr

structure Harvest where
  vps : Bytes := []
  sps : Bytes := []
  allPps : AssocMap Int Bytes := ∅
  lastIdr : AssocMap Nat StoredNal := ∅
  tileNalus : AssocMap Nat (List StoredNal) := ∅
  rawHdr : List UInt8 := []
  hdrBytes : List UInt8 := []

inductive BurstRole where
  | vps
  | sps
  | pps
  | keyPicture
  | picture
  | other
  deriving DecidableEq, Repr

def avcNalIdr : UInt8 := 5

def burstRole (codec : VideoCodec) (first : UInt8) : BurstRole :=
  match codec with
  | .hevc =>
      let nt := hevcNalType first
      if nt = hevcNalVps then .vps
      else if nt = hevcNalSps then .sps
      else if nt = hevcNalPps then .pps
      else if hevcIsIrap nt then .keyPicture
      else .picture
  | .avc =>
      let t := avcNalType first
      if t = avcNalIdr then .keyPicture
      else if 1 ≤ t ∧ t ≤ 5 then .picture
      else .other

def unitMin : VideoCodec → Nat
  | .hevc => 2
  | .avc => 1

namespace Harvest

/-- A key picture starts the list of its tile afresh. -/
def keepKey (state : Harvest) (tile : Nat) (stored : StoredNal) : Harvest :=
  { state with
    lastIdr := state.lastIdr.insert tile stored
    tileNalus := state.tileNalus.insert tile [stored] }

def keepPicture (state : Harvest) (tile : Nat) (stored : StoredNal) : Harvest :=
  { state with
    tileNalus := state.tileNalus.insert tile
      ((state.tileNalus.lookup tile).getD [] ++ [stored]) }

def unit (codec : VideoCodec) (tile : Nat) (origin : List BurstPkt) (state : Harvest)
    (nal : Bytes) : Harvest :=
  if nal.length < unitMin codec then state
  else
    let first := nal.headD 0
    let state := { state with hdrBytes := first :: state.hdrBytes }
    match burstRole codec first with
    | .vps => { state with vps := nal }
    | .sps => { state with sps := nal }
    | .pps => { state with allPps := state.allPps.insert (hevcPpsId nal) nal }
    | .keyPicture => state.keepKey tile ⟨nal, origin⟩
    | .picture => state.keepPicture tile ⟨nal, origin⟩
    | .other => state

def config (state : Harvest) (pkt : BurstPkt) : Harvest :=
  if pkt.payload.head? = some appleAvcConfigMarker then
    match parseAvcConfig pkt.payload with
    | some cfg => { state with sps := cfg.sps, allPps := state.allPps.insert 0 cfg.pps }
    | none => state
  else state

def configs (codec : VideoCodec) (state : Harvest) (packets : List BurstPkt) : Harvest :=
  match codec with
  | .avc => packets.foldl config state
  | .hevc => state

end Harvest

def reassembleBurst (codec : VideoCodec) (packets : List BurstPkt) : NalState :=
  match codec with
  | .hevc => reassembleHevc (packets.map BurstPkt.payload)
  | .avc => reassembleH264 (packets.map BurstPkt.payload)

/-- The units behind the ranges; a range that runs past the buffer cannot be read. -/
def NalState.read (state : NalState) : Option (List Bytes) :=
  if state.ranges.all fun range => decide (range.off + range.len ≤ state.out.length) then
    some state.units
  else none

theorem NalState.units_of_read {state : NalState} {nals : List Bytes}
    (h : state.read = some nals) : state.units = nals := by
  unfold read at h
  split at h
  · exact Option.some_inj.mp h
  · cases h

/-- The tile of a group that is harvested: it has a marker packet and its SSRC is known. -/
def groupTile (tiles : AssocMap UInt32 Nat) (group : BurstGroup) : Option Nat :=
  if group.2.any BurstPkt.marker then tiles.lookup group.1.1 else none

/-- The body of the loop over the groups; packets with one sequence number keep
their order of arrival, which `std::sort` leaves open. -/
def harvestGroup (codec : VideoCodec) (tiles : AssocMap UInt32 Nat) (state : Harvest)
    (group : BurstGroup) : Option Harvest :=
  match groupTile tiles group with
  | none => some state
  | some tile =>
      let packets := burstOrder group.2
      let headers := packets.filterMap fun pkt => pkt.payload.head?
      let state := { state with rawHdr := state.rawHdr ++ headers }
      let state := state.configs codec packets
      (reassembleBurst codec packets).read.map fun nals =>
        nals.foldl (Harvest.unit codec tile group.2) state

def harvestGroups (codec : VideoCodec) (tiles : AssocMap UInt32 Nat) (state : Harvest)
    (groups : List BurstGroup) : Option Harvest :=
  groups.foldlM (harvestGroup codec tiles) state

/-! ## The result -/

/-- The packets of the groups that are not completed.  Without a tile map no group is. -/
def pendingPackets (tiles : AssocMap UInt32 Nat) (groups : List BurstGroup) : List BurstPacket :=
  (groups.filter fun group => tiles.keys.isEmpty || !group.2.any BurstPkt.marker).flatMap
    fun group => group.2.map fun pkt =>
      ⟨group.1.1, group.1.2, pkt.seq, pkt.marker, pkt.payload, pkt.t⟩

inductive DetectedCodec where
  | h264
  | hevc
  | unknown
  deriving DecidableEq, Repr

def detectCodec (codec : VideoCodec) (all : List UInt8) : DetectedCodec :=
  let hevcParams := all.any fun b => hevcNalType b ∈ [hevcNalVps, hevcNalSps, hevcNalPps]
  let hevcAp := all.any fun b => hevcNalType b = hevcNalAp
  let hevcFu := all.any fun b => hevcNalType b = hevcNalFu
  let h264 := all.any (fun b => b &&& 0x80 = 0 ∧ avcNalType b ∈ [1, 5, 7, 8, 24, 28, 29]) &&
    !hevcParams
  if hevcFu && !hevcParams && !hevcAp && !h264 && codec = .avc then .h264
  else if h264 then .h264
  else if hevcParams || hevcAp || hevcFu then .hevc
  else .unknown

structure InitialBurst where
  ssrcToTile : AssocMap UInt32 Nat
  vps : Bytes
  sps : Bytes
  allPps : AssocMap Int Bytes
  lastIdr : AssocMap Nat StoredNal
  tileNalus : AssocMap Nat (List StoredNal)
  pending : List BurstPacket
  detectedCodec : DetectedCodec

inductive StarvedReason where
  | noVideoRtp
  | missingParamSets
  deriving DecidableEq, Repr

structure BurstStarved where
  packets : Nat
  reason : StarvedReason
  deriving DecidableEq, Repr

/-- How the call ends without a result: the exception, or a read outside a buffer. -/
inductive BurstError where
  | starved (error : BurstStarved)
  | outOfBounds
  deriving DecidableEq, Repr

def Harvest.missing (codec : VideoCodec) (state : Harvest) : Bool :=
  match codec with
  | .avc => state.sps.isEmpty || state.allPps.keys.isEmpty
  | .hevc => state.vps.isEmpty || state.sps.isEmpty || state.allPps.keys.isEmpty

def initialBurst (codec : VideoCodec) (tiles : AssocMap UInt32 Nat) (groups : List BurstGroup)
    (state : Harvest) : InitialBurst where
  ssrcToTile := tiles
  vps := state.vps
  sps := state.sps
  allPps := state.allPps
  lastIdr := state.lastIdr
  tileNalus := state.tileNalus
  pending := pendingPackets tiles groups
  detectedCodec := detectCodec codec (state.rawHdr ++ state.hdrBytes)

/-- With an empty tile map the source skips the loop over the groups; here the
loop then finds no tile and changes nothing. -/
def gatherInitialBurst (crypto : SrtpCrypto) (raw : List (Bytes × Int)) (dec : SrtpDecryptor)
    (codec : VideoCodec) (tilesPerFrame qualityTier : Int) :
    Except BurstError InitialBurst × SrtpDecryptor :=
  let collected := collectBurst crypto dec raw
  let result :=
    match selectTiles collected.dec tilesPerFrame qualityTier with
    | none => .error .outOfBounds
    | some tiles =>
        match harvestGroups codec tiles {} collected.groups with
        | none => .error .outOfBounds
        | some state =>
            if state.missing codec then
              .error (.starved
                ⟨raw.length, if raw.length < 20 then .noVideoRtp else .missingParamSets⟩)
            else .ok (initialBurst codec tiles collected.groups state)
  (result, collected.dec)

theorem gatherInitialBurst_ok
    (h : (gatherInitialBurst crypto raw dec codec tilesPerFrame qualityTier).1 = .ok burst) :
    ∃ tiles state, selectTiles (collectBurst crypto dec raw).dec tilesPerFrame qualityTier =
        some tiles ∧
      harvestGroups codec tiles {} (collectBurst crypto dec raw).groups = some state ∧
      burst = initialBurst codec tiles (collectBurst crypto dec raw).groups state := by
  unfold gatherInitialBurst at h
  dsimp only at h
  cases htiles : selectTiles (collectBurst crypto dec raw).dec tilesPerFrame qualityTier with
  | none => simp [htiles] at h
  | some tiles =>
    simp only [htiles] at h
    cases hstate : harvestGroups codec tiles {} (collectBurst crypto dec raw).groups with
    | none => simp [hstate] at h
    | some state =>
      simp only [hstate] at h
      split at h
      · cases h
      · exact ⟨tiles, state, rfl, hstate, (Except.ok.inj h).symm⟩

end Scshr.Media
