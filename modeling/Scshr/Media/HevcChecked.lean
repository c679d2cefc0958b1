import Scshr.Lib.Metering
import Scshr.Media.HevcRps

/-! The HEVC header readers with their machine arithmetic.  A run stops at the first shift by
the width of its operand or more, at the first signed result that does not fit, and at the first
table index out of range, and it counts the turns of its loops.  What is not checked is fixed by
the source: shifts by a constant, and sums of numbers of at most three bits. -/
namespace Scshr.Media

open Common Lib.Metering

inductive HeaderFault where
  | shift
  | overflow
  | table
  deriving DecidableEq, Repr

abbrev Metered := Program HeaderFault BitReader

def InInt32 (value : Int) : Prop := -2 ^ 31 ≤ value ∧ value < 2 ^ 31

instance (value : Int) : Decidable (InInt32 value) := inferInstanceAs (Decidable (_ ∧ _))

namespace Metered

def shiftBy (amount : Int) : Metered Unit := demand (0 ≤ amount ∧ amount < 32) .shift

def signed (value : Int) : Metered Int := do
  demand (InInt32 value) .overflow
  pure value

def entry {α : Type} (table : List α) (index : Int) : Metered α :=
  match if 0 ≤ index then table[index.toNat]? else none with
  | some item => pure item
  | none => throw .table

/-- A field that is present under a condition, and zero otherwise. -/
def readIf {α : Type} [Inhabited α] (present : Prop) [Decidable present] (field : Metered α) :
    Metered α :=
  if present then field else pure default

/-! ## The bit reader -/

def read1 : Metered Nat := do
  let m ← get
  set { m with source := { m.source with pos := m.source.pos + 1 } }
  let byte := m.source.pos / 8
  if m.source.d.length ≤ byte then pure 0
  else
    let bit := 7 - m.source.pos % 8
    let octet ← entry m.source.d byte
    shiftBy bit
    pure ((octet.toNat >>> bit) % 2)

def readFrom : Nat → Nat → Metered Nat
  | 0, value => pure value
  | n + 1, value => do
    turn
    let bit ← read1
    readFrom n ((value * 2 + bit) % 2 ^ 32)

def read (n : Int) : Metered Nat := readFrom n.toNat 0

def countZeros : Nat → Metered Nat
  | 0 => do
    let _ ← read1
    pure 0
  | left + 1 => do
    let bit ← read1
    if bit = 0 then
      turn
      let zeros ← countZeros left
      pure (zeros + 1)
    else pure 0

/-- The second loop of `read_ue`.  The bits come highest first, so that putting the one shifted
by `i` in its place is the same as moving up those before it. -/
def readSuffix : Nat → Nat → Metered Nat
  | 0, suffix => pure suffix
  | i + 1, suffix => do
    turn
    let bit ← read1
    shiftBy i
    readSuffix i ((suffix * 2 + bit) % 2 ^ 32)

def readUe : Metered Nat := do
  let zeros ← countZeros 32
  let suffix ← readSuffix zeros 0
  shiftBy zeros
  pure ((2 ^ zeros - 1 + suffix) % 2 ^ 32)

def overrun : Metered Bool := do
  let m ← get
  pure (decide (m.source.d.length < m.source.pos / 8))

def repeatRead (field : Metered Nat) : Nat → Metered (List Nat)
  | 0 => pure []
  | n + 1 => do
    turn
    let value ← field
    let values ← repeatRead field n
    pure (value :: values)

/-! ## Reference picture sets -/

def readInterFlags : Nat → Metered (List (Bool × Bool))
  | 0 => pure []
  | n + 1 => do
    turn
    let used ← read1
    let useDelta ← (if used = 0 then read1 else pure 1 : Metered Nat)
    let flags ← readInterFlags n
    pure ((used ≠ 0, useDelta ≠ 0) :: flags)

/-- The loop over the deltas of the reference set, from its last one to its first. -/
def interDeltas (ref : ShortTermRps) (deltaRps : Int) (flags : List (Bool × Bool)) :
    Nat → Metered ShortTermRps
  | 0 => pure []
  | left + 1 => do
    turn
    let rd ← entry ref left
    let flag ← entry flags (ref.length - 1 - left : Nat)
    let d ← signed (rd.1 + deltaRps)
    let deltas ← interDeltas ref deltaRps flags left
    pure (if d < 0 ∧ flag.2 then (d, flag.1) :: deltas else deltas)

def predictRps (ref : ShortTermRps) (deltaRps : Int) : Metered ShortTermRps := do
  let flags ← readInterFlags (ref.length + 1)
  let deltas ← interDeltas ref deltaRps flags ref.length
  let last ← entry flags ref.length
  pure (deltas ++ if deltaRps < 0 ∧ last.2 then [(deltaRps, last.1)] else [])

def parseInterRps (idx numInSps : Int) (sets : List ShortTermRps) : Metered ShortTermRps := do
  let deltaIdxMinus1 ← readIf (idx = numInSps) readUe
  let deltaRpsSign ← read1
  let absDeltaRpsMinus1 ← readUe
  let absDeltaRps ← signed (int32 absDeltaRpsMinus1 + 1)
  let deltaRps ← signed ((1 - 2 * (deltaRpsSign : Int)) * absDeltaRps)
  let deltaIdx ← signed (int32 deltaIdxMinus1 + 1)
  let refIdx ← signed (idx - deltaIdx)
  if refIdx < 0 ∨ (sets.length : Int) ≤ refIdx then pure []
  else
    let ref ← entry sets refIdx
    predictRps ref deltaRps

def readDeltas (sign : Int) : Nat → Int → Metered ShortTermRps
  | 0, _ => pure []
  | n + 1, last => do
    turn
    let minus1 ← readUe
    let distance ← signed (int32 minus1 + 1)
    let d ← signed (last + sign * distance)
    let used ← read1
    let deltas ← readDeltas sign n d
    pure ((d, decide (used ≠ 0)) :: deltas)

def parseExplicitRps : Metered ShortTermRps := do
  let nneg ← readUe
  let npos ← readUe
  if 64 < nneg ∨ 64 < npos then pure []
  else
    let negative ← readDeltas (-1) nneg 0
    let positive ← readDeltas 1 npos 0
    pure (negative ++ positive)

def parseStRefPicSet (idx numInSps : Int) (sets : List ShortTermRps) : Metered ShortTermRps := do
  let inter ← readIf (idx ≠ 0) read1
  if inter ≠ 0 then parseInterRps idx numInSps sets else parseExplicitRps

def parseStRefPicSets (numInSps : Int) :
    Nat → List ShortTermRps → Metered (List ShortTermRps)
  | 0, sets => pure sets
  | left + 1, sets => do
    turn
    let rps ← parseStRefPicSet sets.length numInSps sets
    parseStRefPicSets numInSps left (sets ++ [rps])

/-! ## The SPS -/

/-- The last loop of `skip_profile_tier_level`, over the flags of the sub-layers. -/
def skipSubLayers : List Nat → Metered Unit
  | profile :: level :: flags => do
    turn
    let _ ← readIf (profile ≠ 0) (read (8 + 32 + 48))
    let _ ← readIf (level ≠ 0) (read 8)
    skipSubLayers flags
  | _ => pure ()

def skipProfileTierLevel (maxSubLayers : Nat) : Metered Unit := do
  let _ ← read 8
  let _ ← read 32
  let _ ← read 48
  let _ ← read 8
  let flags ← repeatRead read1 (2 * (maxSubLayers - 1))
  let _ ← repeatRead (read 2) (if 1 < maxSubLayers then 8 - (maxSubLayers - 1) else 0)
  skipSubLayers flags

def skipPcm : Metered Unit := do
  let _ ← read 4
  let _ ← read 4
  let _ ← readUe
  let _ ← readUe
  let _ ← read1
  pure ()

def parseSpsTail (st : HevcSpsState) : Metered HevcSpsState := do
  let _ ← read1
  let sao ← read1
  let pcm ← read1
  readIf (pcm ≠ 0) skipPcm
  let count ← readUe
  let num : Int := if 64 < int32 count then 0 else int32 count
  let sets ← parseStRefPicSets num num.toNat []
  let present ← read1
  let numLongTerm ← readIf (present ≠ 0) readUe
  let overran ← overrun
  pure { st with
    sampleAdaptiveOffsetEnabledFlag := sao ≠ 0
    numShortTermRefPicSets := num
    shortTermRpsSets := sets
    longTermRefPicsPresentFlag := present ≠ 0
    numLongTermRefPicsSps := int32 numLongTerm
    parsed := !overran }

def hevcParseSps : Metered HevcSpsState := do
  let _ ← read 4
  let maxSubLayersMinus1 ← read 3
  let _ ← read1
  skipProfileTierLevel (maxSubLayersMinus1 + 1)
  let _ ← readUe
  let chroma ← readUe
  let separate ← readIf (int32 chroma = 3) read1
  let width ← readUe
  let height ← readUe
  let window ← read1
  let _ ← repeatRead readUe (if window ≠ 0 then 4 else 0)
  let _ ← repeatRead readUe 2
  let log2Lsb ← readUe
  let log2 ← signed (int32 log2Lsb + 4)
  let ordering ← read1
  let _ ← repeatRead readUe (3 * if ordering ≠ 0 then maxSubLayersMinus1 + 1 else 1)
  let minCb ← readUe
  let diffCb ← readUe
  let _ ← repeatRead readUe 4
  let st : HevcSpsState :=
    { log2MaxPicOrderCntLsb := log2
      separateColourPlaneFlag := separate ≠ 0
      picWidthInLumaSamples := int32 width
      picHeightInLumaSamples := int32 height
      log2MinLumaCodingBlockSizeMinus3 := int32 minCb
      log2DiffMaxMinLumaCodingBlockSize := int32 diffCb
      chromaFormatIdc := int32 chroma }
  let scalingList ← read1
  let scalingData ← readIf (scalingList ≠ 0) read1
  if scalingData ≠ 0 then pure { st with parsed := true } else parseSpsTail st

/-! ## Slices -/

/-- The loop `while ((1 << bits) < num) ++bits`, which may still make `left` turns before it
shifts by the width of an `int`. -/
def bitsLoop (num : Int) : Nat → Metered Nat
  | 0 => throw .shift
  | left + 1 =>
    let bits := 31 - left
    if int32 (2 ^ bits) < num then do
      turn
      bitsLoop num left
    else pure bits

def bitsFor (num : Int) : Metered Nat := bitsLoop num 32

def ctbCount (samples ctb : Int) : Metered Int := do
  let sum ← signed (samples + ctb)
  let last ← signed (sum - 1)
  pure (last.tdiv ctb)

def sliceAddressBits (sps : HevcSpsState) : Metered (Option Nat) := do
  let minCbLog2 ← signed (sps.log2MinLumaCodingBlockSizeMinus3 + 3)
  let ctbLog2 ← signed (minCbLog2 + sps.log2DiffMaxMinLumaCodingBlockSize)
  if ctbLog2 < 4 ∨ 6 < ctbLog2 ∨ sps.picWidthInLumaSamples = 0 then pure none
  else
    shiftBy ctbLog2
    let cw ← ctbCount sps.picWidthInLumaSamples (2 ^ ctbLog2.toNat)
    let chh ← ctbCount sps.picHeightInLumaSamples (2 ^ ctbLog2.toNat)
    let num ← signed (cw * chh)
    if num ≤ 1 then pure none
    else
      let bits ← bitsFor num
      pure (some bits)

def parseSliceSet (sps : HevcSpsState) : Metered SliceSet := do
  let stSpsFlag ← read1
  if stSpsFlag = 0 then
    let rps ← parseStRefPicSet sps.numShortTermRefPicSets sps.numShortTermRefPicSets
      sps.shortTermRpsSets
    pure (.found rps)
  else if 1 < sps.numShortTermRefPicSets then
    let bits ← bitsFor sps.numShortTermRefPicSets
    let idx ← read bits
    if sps.shortTermRpsSets.length ≤ idx then pure .invalid
    else
      let rps ← entry sps.shortTermRpsSets idx
      pure (.found rps)
  else if sps.shortTermRpsSets = [] then pure .absent
  else
    let rps ← entry sps.shortTermRpsSets 0
    pure (.found rps)

def parseLongTermCount (sps : HevcSpsState) : Metered Int := do
  if sps.longTermRefPicsPresentFlag then
    let numLtSps ← readIf (0 < sps.numLongTermRefPicsSps) readUe
    let numLtPics ← readUe
    pure (int32 ((numLtSps + numLtPics) % 2 ^ 32))
  else pure 0

def parseSliceFields (nt : UInt8) (sps : HevcSpsState) : Metered (Option SliceRps) := do
  let sliceType ← readUe
  let _ ← readIf sps.separateColourPlaneFlag (read 2)
  if hevcIsIdr nt then pure (some ⟨0, [], 0⟩)
  else
    let pocLsb ← read sps.log2MaxPicOrderCntLsb
    match ← parseSliceSet sps with
    | .invalid => pure none
    | .absent => pure (some ⟨pocLsb, [], 0⟩)
    | .found deltas =>
      let numLt ← parseLongTermCount sps
      let overran ← overrun
      if overran then pure none
      else pure (some ⟨pocLsb, if sliceType = 2 then [] else deltas, numLt⟩)

def hevcParseSliceRps (nt : UInt8) (sps : HevcSpsState) : Metered (Option SliceRps) := do
  let firstSlice ← read1
  let _ ← readIf (hevcIsIrap nt) read1
  let _ ← readUe
  if firstSlice ≠ 0 then parseSliceFields nt sps
  else
    match ← sliceAddressBits sps with
    | none => pure none
    | some bits =>
      let _ ← read bits
      parseSliceFields nt sps

/-! ## The tracker -/

/-- The most significant part of the POC; a comparison that decides alone leaves the
difference behind it uncomputed. -/
def pocMsb (range msb prevLsb lsb : Int) : Metered Int := do
  let back ← (if lsb < prevLsb then signed (prevLsb - lsb) else pure 0 : Metered Int)
  let forth ← (if prevLsb < lsb then signed (lsb - prevLsb) else pure 0 : Metered Int)
  if lsb < prevLsb ∧ range / 2 ≤ back then signed (msb + range)
  else if prevLsb < lsb ∧ range / 2 < forth then signed (msb - range)
  else pure msb

/-- The loop over the references of a slice; the distance is an `abs`. -/
def checkRefs (poc : Int) : ShortTermRps → Metered Unit
  | [] => pure ()
  | (delta, used) :: deltas => do
    turn
    if used then
      let _ ← signed (poc + delta)
      let _ ← signed (-delta)
      checkRefs poc deltas
    else checkRefs poc deltas

/-- The POC of the slice, in the arithmetic of `check_slice`. -/
def checkParsed (tracker : HevcRpsTracker) (nal : Bytes) (res : SliceRps) : Metered Int := do
  shiftBy tracker.sps.log2MaxPicOrderCntLsb
  let maxPocLsb := int32 (2 ^ tracker.sps.log2MaxPicOrderCntLsb.toNat)
  let lsb := if isIdrNal nal then 0 else int32 res.pocLsb
  let msb ← (if isIdrNal nal then pure 0
    else pocMsb maxPocLsb tracker.prevPocMsb tracker.prevPocLsb lsb : Metered Int)
  let poc ← signed (msb + lsb)
  checkRefs poc res.deltas
  pure poc

def sliceRbsp (nal : Bytes) : Bytes :=
  removeEmulationPrevention ((nal.drop 2).take (min (nal.length - 2) 256))

/-- `check_slice` up to what it counts; the result is `last_checked_poc_`. -/
def checkSlice (tracker : HevcRpsTracker) (nal : Bytes) : Metered (Option Int) := do
  if tracker.sps.parsed = false ∨ nal.length < 3 then pure none
  else
    let nt := hevcNalType (← entry nal 0)
    match ← hevcParseSliceRps nt tracker.sps with
    | none => pure none
    | some res =>
      let poc ← checkParsed tracker nal res
      pure (some poc)

end Metered

/-- `feed_sps` and then `check_slice`: the POC, and the loop turns of both. -/
def checkHeaders (tracker : HevcRpsTracker) (payload nal : Bytes) :
    Except HeaderFault (Option Int × Nat) := do
  let (sps, fed) ← Metered.hevcParseSps ⟨⟨removeEmulationPrevention payload, 0⟩, 0⟩
  let (poc, checked) ← Metered.checkSlice { tracker with sps := sps } nal
    ⟨⟨Metered.sliceRbsp nal, 0⟩, fed.steps⟩
  pure (poc, checked.steps)

end Scshr.Media
