import Scshr.Media.Nalu

/-! The HEVC header readers (`media/bitstream.h` and the parsers of `media/hevc_rps.cpp`).
Bits past the end read as zero, so every parser returns; the ones that matter look at
`overrun` when they are done. -/
namespace Scshr.Media

open Common

def removeEmulationPrevention : Bytes → Bytes
  | a :: b :: c :: rest =>
    if a = 0 ∧ b = 0 ∧ c = 3 then 0 :: 0 :: removeEmulationPrevention rest
    else a :: removeEmulationPrevention (b :: c :: rest)
  | bytes => bytes

structure BitReader where
  d : Bytes
  pos : Nat
  deriving DecidableEq

abbrev BitParser := StateM BitReader

namespace BitReader

def read1 : BitParser Nat := fun r =>
  (((r.d.getD (r.pos / 8) 0).toNat >>> (7 - r.pos % 8)) % 2, { r with pos := r.pos + 1 })

def readFrom : Nat → Nat → BitParser Nat
  | 0, value => pure value
  | n + 1, value => do
    let bit ← read1
    readFrom n ((value * 2 + bit) % 2 ^ 32)

/-- `read(n)`; a negative count reads nothing. -/
def read (n : Int) : BitParser Nat := readFrom n.toNat 0

/-- The first loop of `read_ue`, which may still count `left` zeros. -/
def countZeros : Nat → BitParser Nat
  | 0 => do
    let _ ← read1
    pure 0
  | left + 1 => do
    let bit ← read1
    if bit = 0 then
      let zeros ← countZeros left
      pure (zeros + 1)
    else pure 0

/-- `read_ue`.  Thirty-two zeros shift a 32-bit one by its width, which keeps it in place. -/
def readUe : BitParser Nat := do
  let zeros ← countZeros 32
  let suffix ← read zeros
  pure ((2 ^ (zeros % 32) - 1 + suffix) % 2 ^ 32)

def overrun : BitParser Bool := fun r => (decide (r.d.length < r.pos / 8), r)

end BitReader

open BitReader

def int32 (value : Nat) : Int := if value < 2 ^ 31 then value else (value : Int) - 2 ^ 32

/-- `hevc_pps_id` (`media/burst.cpp`). -/
def hevcPpsId (pps : Bytes) : Int :=
  if pps.length ≤ 2 then 0
  else
    let rbsp := removeEmulationPrevention ((pps.drop 2).take (min (pps.length - 2) 8))
    int32 (readUe ⟨rbsp, 0⟩).1

abbrev ShortTermRps := List (Int × Bool)

structure HevcSpsState where
  log2MaxPicOrderCntLsb : Int := 8
  numShortTermRefPicSets : Int := 0
  shortTermRpsSets : List ShortTermRps := []
  numLongTermRefPicsSps : Int := 0
  longTermRefPicsPresentFlag : Bool := false
  sampleAdaptiveOffsetEnabledFlag : Bool := false
  separateColourPlaneFlag : Bool := false
  picWidthInLumaSamples : Int := 0
  picHeightInLumaSamples : Int := 0
  log2MinLumaCodingBlockSizeMinus3 : Int := 0
  log2DiffMaxMinLumaCodingBlockSize : Int := 0
  chromaFormatIdc : Int := 1
  parsed : Bool := false
  deriving DecidableEq

def repeatParser (n : Nat) (parser : BitParser Nat) : BitParser (List Nat) :=
  match n with
  | 0 => pure []
  | n + 1 => do
    let value ← parser
    let values ← repeatParser n parser
    pure (value :: values)

def skipProfileTierLevel (maxSubLayers : Nat) : BitParser Unit := do
  let _ ← read 8
  let _ ← read 32
  let _ ← read 48
  let _ ← read 8
  let flags ← repeatParser (2 * (maxSubLayers - 1)) read1
  if 1 < maxSubLayers then
    let _ ← repeatParser (8 - (maxSubLayers - 1)) (read 2)
  skipSubLayers flags
where
  skipSubLayers : List Nat → BitParser Unit
    | profile :: level :: flags => do
      if profile ≠ 0 then
        let _ ← read (8 + 32 + 48)
      if level ≠ 0 then
        let _ ← read 8
      skipSubLayers flags
    | _ => pure ()

/-- The flags of `parse_st_ref_pic_set` with inter prediction: `used_by_curr` and
`use_delta` of each entry. -/
def readInterFlags : Nat → BitParser (List (Bool × Bool))
  | 0 => pure []
  | n + 1 => do
    let used ← read1
    let useDelta ← if used = 0 then read1 else pure 1
    let flags ← readInterFlags n
    pure ((used ≠ 0, useDelta ≠ 0) :: flags)

/-- The entries kept of a predicted set: those behind the current picture. -/
def interDeltas (ref : ShortTermRps) (deltaRps : Int) (flags : List (Bool × Bool)) :
    ShortTermRps :=
  ((ref.reverse.map fun rd => rd.1 + deltaRps) ++ [deltaRps]).zip flags |>.filterMap
    fun (d, used, useDelta) => if d < 0 ∧ useDelta then some (d, used) else none

def parseInterRps (idx numInSps : Int) (sets : List ShortTermRps) :
    BitParser ShortTermRps := do
  let deltaIdxMinus1 ← if idx = numInSps then readUe else pure 0
  let deltaRpsSign ← read1
  let absDeltaRpsMinus1 ← readUe
  let deltaRps := (1 - 2 * (deltaRpsSign : Int)) * (int32 absDeltaRpsMinus1 + 1)
  let refIdx := idx - (int32 deltaIdxMinus1 + 1)
  if refIdx < 0 ∨ (sets.length : Int) ≤ refIdx then pure []
  else
    let ref := sets.getD refIdx.toNat []
    let flags ← readInterFlags (ref.length + 1)
    pure (interDeltas ref deltaRps flags)

/-- One of the two loops without inter prediction; each delta counts on from the last. -/
def readDeltas (sign : Int) : Nat → Int → BitParser ShortTermRps
  | 0, _ => pure []
  | n + 1, last => do
    let minus1 ← readUe
    let d := last + sign * (int32 minus1 + 1)
    let used ← read1
    let deltas ← readDeltas sign n d
    pure ((d, decide (used ≠ 0)) :: deltas)

def parseExplicitRps : BitParser ShortTermRps := do
  let nneg ← readUe
  let npos ← readUe
  if 64 < nneg ∨ 64 < npos then pure []
  else
    let negative ← readDeltas (-1) nneg 0
    let positive ← readDeltas 1 npos 0
    pure (negative ++ positive)

def parseStRefPicSet (idx numInSps : Int) (sets : List ShortTermRps) :
    BitParser ShortTermRps := do
  let inter ← if idx ≠ 0 then read1 else pure 0
  if inter ≠ 0 then parseInterRps idx numInSps sets else parseExplicitRps

def parseStRefPicSets (numInSps : Int) :
    Nat → List ShortTermRps → BitParser (List ShortTermRps)
  | 0, sets => pure sets
  | left + 1, sets => do
    let rps ← parseStRefPicSet sets.length numInSps sets
    parseStRefPicSets numInSps left (sets ++ [rps])

def parseSpsTail (st : HevcSpsState) : BitParser HevcSpsState := do
  let _ ← read1
  let sao ← read1
  if (← read1) ≠ 0 then
    let _ ← read 4
    let _ ← read 4
    let _ ← readUe
    let _ ← readUe
    let _ ← read1
  let count := int32 (← readUe)
  let num : Int := if 64 < count then 0 else count
  let sets ← parseStRefPicSets num num.toNat []
  let present ← read1
  let numLongTerm ← if present ≠ 0 then readUe else pure 0
  let overran ← overrun
  pure { st with
    sampleAdaptiveOffsetEnabledFlag := sao ≠ 0
    numShortTermRefPicSets := num
    shortTermRpsSets := sets
    longTermRefPicsPresentFlag := present ≠ 0
    numLongTermRefPicsSps := int32 numLongTerm
    parsed := !overran }

/-- `hevc_parse_sps` on the payload without its emulation prevention bytes.  An SPS with
scaling lists is taken as parsed where they start. -/
def hevcParseSps : BitParser HevcSpsState := do
  let _ ← read 4
  let maxSubLayersMinus1 ← read 3
  let _ ← read1
  skipProfileTierLevel (maxSubLayersMinus1 + 1)
  let _ ← readUe
  let chroma ← readUe
  let separate ← if int32 chroma = 3 then read1 else pure 0
  let width ← readUe
  let height ← readUe
  if (← read1) ≠ 0 then
    let _ ← repeatParser 4 readUe
  let _ ← repeatParser 2 readUe
  let log2Lsb ← readUe
  let ordering ← read1
  let _ ← repeatParser (3 * if ordering ≠ 0 then maxSubLayersMinus1 + 1 else 1) readUe
  let minCb ← readUe
  let diffCb ← readUe
  let _ ← repeatParser 4 readUe
  let st : HevcSpsState :=
    { log2MaxPicOrderCntLsb := int32 log2Lsb + 4
      separateColourPlaneFlag := separate ≠ 0
      picWidthInLumaSamples := int32 width
      picHeightInLumaSamples := int32 height
      log2MinLumaCodingBlockSizeMinus3 := int32 minCb
      log2DiffMaxMinLumaCodingBlockSize := int32 diffCb
      chromaFormatIdc := int32 chroma }
  let scalingList ← read1
  let scalingData ← if scalingList ≠ 0 then read1 else pure 0
  if scalingData ≠ 0 then pure { st with parsed := true } else parseSpsTail st

def hevcIsIrap (nt : UInt8) : Bool := 16 ≤ nt && nt ≤ 21

def hevcIsIdr (nt : UInt8) : Bool := nt = 19 || nt = 20

structure SliceRps where
  pocLsb : Nat
  deltas : ShortTermRps
  numLongTerm : Int
  deriving DecidableEq

def bitsFor (num : Int) : Nat :=
  ((List.range 31).find? fun bits => decide (num ≤ 2 ^ bits)).getD 31

/-- The address of a slice that is not the first of its picture; `none` is the `nullopt` of
a picture size that gives no address. -/
def sliceAddressBits (sps : HevcSpsState) : Option Nat :=
  let ctbLog2 := sps.log2MinLumaCodingBlockSizeMinus3 + 3 + sps.log2DiffMaxMinLumaCodingBlockSize
  if ctbLog2 < 4 ∨ 6 < ctbLog2 ∨ sps.picWidthInLumaSamples = 0 then none
  else
    let ctb : Int := 2 ^ ctbLog2.toNat
    let cw := (sps.picWidthInLumaSamples + ctb - 1).tdiv ctb
    let chh := (sps.picHeightInLumaSamples + ctb - 1).tdiv ctb
    if cw * chh ≤ 1 then none else some (bitsFor (cw * chh))

/-- Where the reference picture set of a slice comes from: an index outside the SPS ends the
parse, and so, with no references, does an SPS that has none. -/
inductive SliceSet where
  | invalid
  | absent
  | found (deltas : ShortTermRps)
  deriving DecidableEq

def parseSliceSet (sps : HevcSpsState) : BitParser SliceSet := do
  let stSpsFlag ← read1
  if stSpsFlag = 0 then
    let rps ← parseStRefPicSet sps.numShortTermRefPicSets sps.numShortTermRefPicSets
      sps.shortTermRpsSets
    pure (.found rps)
  else if 1 < sps.numShortTermRefPicSets then
    let idx ← read (bitsFor sps.numShortTermRefPicSets)
    pure (sps.shortTermRpsSets[idx]?.elim .invalid .found)
  else pure (sps.shortTermRpsSets.head?.elim .absent .found)

def parseLongTermCount (sps : HevcSpsState) : BitParser Int := do
  if sps.longTermRefPicsPresentFlag then
    let numLtSps ← if 0 < sps.numLongTermRefPicsSps then readUe else pure 0
    let numLtPics ← readUe
    pure (int32 ((numLtSps + numLtPics) % 2 ^ 32))
  else pure 0

def parseSliceFields (nt : UInt8) (sps : HevcSpsState) : BitParser (Option SliceRps) := do
  let sliceType ← readUe
  if sps.separateColourPlaneFlag then
    let _ ← read 2
  if hevcIsIdr nt then pure (some ⟨0, [], 0⟩)
  else
    let pocLsb ← read sps.log2MaxPicOrderCntLsb
    match ← parseSliceSet sps with
    | .invalid => pure none
    | .absent => pure (some ⟨pocLsb, [], 0⟩)
    | .found deltas =>
      let numLt ← parseLongTermCount sps
      if ← overrun then pure none
      else pure (some ⟨pocLsb, if sliceType = 2 then [] else deltas, numLt⟩)

def hevcParseSliceRps (nt : UInt8) (sps : HevcSpsState) : BitParser (Option SliceRps) := do
  let firstSlice ← read1
  if hevcIsIrap nt then
    let _ ← read1
  let _ ← readUe
  if firstSlice ≠ 0 then parseSliceFields nt sps
  else
    match sliceAddressBits sps with
    | none => pure none
    | some bits =>
      let _ ← read bits
      parseSliceFields nt sps

/-- The part of `check_slice` that reads the slice: its header is looked for in the first
256 bytes behind the NAL header. -/
def sliceRps (sps : HevcSpsState) (nal : Bytes) : Option SliceRps :=
  if sps.parsed = false ∨ nal.length < 3 then none
  else
    let rbsp := removeEmulationPrevention ((nal.drop 2).take (min (nal.length - 2) 256))
    ((hevcParseSliceRps (hevcNalType (nal.getD 0 0)) sps).run ⟨rbsp, 0⟩).1

end Scshr.Media
