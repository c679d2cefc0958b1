import Scshr.Media.HevcBounds

/-! The arithmetic of `feed_sps` and `check_slice`.  The headers are read without a fault exactly
if every Exp-Golomb code fits and the sums that are made of the numbers do; the only loop without
a constant bound, over the bits of the POC, then ends inside the slice. -/
namespace Scshr.Media

open Common Lib.Metering List

/-! ## The SPS -/

def skipPcm : BitParser Unit := do
  let _ ← BitReader.read 4
  let _ ← BitReader.read 4
  let _ ← BitReader.readUe
  let _ ← BitReader.readUe
  let _ ← BitReader.read1
  pure ()

def PcmFits : BitReader → Prop :=
  After (BitReader.read 4) fun _ => After (BitReader.read 4) fun _ => Ue fun _ => UeFits

def SpsTailFits : BitReader → Prop :=
  After BitReader.read1 fun _ => After BitReader.read1 fun _ => After BitReader.read1 fun pcm r =>
  (pcm ≠ 0 → PcmFits r) ∧ After (if pcm ≠ 0 then skipPcm else pure ()) (fun _ => Ue fun count =>
    let num : Int := if 64 < int32 count then 0 else int32 count
    fun r => SetsFit num num.toNat [] r ∧
      After (parseStRefPicSets num num.toNat [])
        (fun _ => After BitReader.read1 fun present r => present ≠ 0 → UeFits r) r) r

def SpsFits : BitReader → Prop :=
  After (BitReader.read 4) fun _ => After (BitReader.read 3) fun maxSubLayersMinus1 =>
  After BitReader.read1 fun _ => After (skipProfileTierLevel (maxSubLayersMinus1 + 1)) fun _ =>
  Ue fun _ => Ue fun chroma => After (if int32 chroma = 3 then BitReader.read1 else pure 0) fun _ =>
  Ue fun _ => Ue fun _ => After BitReader.read1 fun window => Ues (if window ≠ 0 then 4 else 0) <|
  Ues 2 <| Ue fun log2Lsb r => InInt32 (int32 log2Lsb + 4) ∧
  After BitReader.read1 (fun ordering =>
    Ues (3 * if ordering ≠ 0 then maxSubLayersMinus1 + 1 else 1) <|
    Ue fun _ => Ue fun _ => Ues 4 <| After BitReader.read1 fun scalingList =>
    After (if scalingList ≠ 0 then BitReader.read1 else pure 0) fun scalingData =>
    if scalingData ≠ 0 then fun _ => True else SpsTailFits) r

namespace Metered

variable {d : Bytes}

theorem runs_skipPcm : Runs (Over d) skipPcm Media.skipPcm PcmFits 136 :=
  (runs_read 4).andThen fun _ => (runs_read 4).andThen fun _ => runs_readUe.bind fun _ =>
    (runs_readUe.bind fun _ => runs_read1.andThen fun _ => runs_pure ()).congr
      fun _ _ => (and_iff_left trivial).symm

theorem runs_skipSubLayers (flags : List Nat) :
    Runs (Over d) (skipSubLayers flags) (skipProfileTierLevel.skipSubLayers flags) (fun _ => True)
      (flags.length * 97) := by
  induction flags using skipSubLayers.induct with
  | case1 profile level flags ih =>
    have first := runs_readIf_true (profile ≠ 0) (runs_read (d := d) (8 + 32 + 48))
    have whole := Runs.turn (first.andThen fun _ =>
      (runs_readIf_true (level ≠ 0) (runs_read 8)).andThen fun _ => ih)
    simp only [ite_bind] at whole
    refine Runs.of_le whole ?_
    simp only [length_cons]
    omega
  | case2 flags short =>
    rw [skipSubLayers.eq_2 flags short, skipProfileTierLevel.skipSubLayers.eq_2 flags short]
    exact runs_done ()

theorem repeatParser_ite (need : Prop) [Decidable need] (n : Nat) (parser : BitParser Nat)
    (rest : List Nat → BitParser α) :
    repeatParser (if need then n else 0) parser >>= rest =
      if need then repeatParser n parser >>= rest else rest [] := by
  split <;> rfl

theorem yields_repeatParser (n : Nat) (parser : BitParser Nat) :
    Yields (repeatParser n parser) (·.length = n) := by
  induction n with
  | zero => exact yields_pure rfl
  | succ n ih =>
    exact yields_bind _ fun value => ih.bind fun values length =>
      yields_pure (congrArg (· + 1) length)

theorem runs_skipProfileTierLevel (maxSubLayers : Nat) (few : maxSubLayers ≤ 8) :
    Runs (Over d) (skipProfileTierLevel maxSubLayers)
      (Media.skipProfileTierLevel maxSubLayers) (fun _ => True) 1492 := by
  refine ((runs_read 8).andThen fun _ => (runs_read 32).andThen fun _ =>
    (runs_read 48).andThen fun _ => (runs_read 8).andThen fun _ =>
      ((runs_repeatRead_true runs_read1 _).andThen_of (yields_repeatParser _ _)
        fun flags length => (?_ : Runs _ _ _ (fun _ => True) 1382)).of_le (?_ : _ ≤ 1396))
  · have reserved : (if 1 < maxSubLayers then 8 - (maxSubLayers - 1) else 0) ≤ 8 := by
      split <;> omega
    have layers := (runs_repeatRead_true (runs_read (d := d) 2)
      (if 1 < maxSubLayers then 8 - (maxSubLayers - 1) else 0)).andThen fun _ =>
        runs_skipSubLayers flags
    rw [repeatParser_ite] at layers
    refine layers.of_le ?_
    change _ * 3 + flags.length * 97 ≤ 1382
    omega
  · omega

theorem runs_parseSpsTail (st : HevcSpsState) :
    Runs (Over d) (parseSpsTail st) (Media.parseSpsTail st) SpsTailFits 541000 := by
  have sets (num : Int) (few : num ≤ 64) : Runs (Over d) (parseStRefPicSets num num.toNat [])
      (Media.parseStRefPicSets num num.toNat []) (SetsFit num num.toNat []) 540736 := by
    refine (runs_parseStRefPicSets (fun _ mem => absurd mem not_mem_nil) ?_).of_le ?_
    · rw [length_nil]
      omega
    · omega
  have whole := (runs_read1 (d := d)).andThen fun amp => runs_read1.andThen fun sao =>
    runs_read1.andThen fun pcm => (runs_readIf (pcm ≠ 0) runs_skipPcm).bind fun _ =>
      runs_readUe.bind fun count =>
        (sets (if 64 < int32 count then 0 else int32 count) (by split <;> omega)).bind fun sets =>
          runs_read1.andThen fun present =>
            ((runs_readIf (present ≠ 0) runs_readUe).bind fun numLt =>
              runs_overrun.andThen fun overran => runs_pure { st with
                sampleAdaptiveOffsetEnabledFlag := sao ≠ 0
                numShortTermRefPicSets := if 64 < int32 count then 0 else int32 count
                shortTermRpsSets := sets
                longTermRefPicsPresentFlag := present ≠ 0
                numLongTermRefPicsSps := int32 numLt
                parsed := !overran }).congr fun _ _ => (and_iff_left trivial).symm
  simp only [ite_bind, Media.skipPcm, bind_assoc, pure_bind] at whole
  exact Runs.of_le whole (by norm_num)

theorem yields_readFrom (n value : Nat) :
    Yields (BitReader.readFrom n value) (· < 2 ^ n * (value + 1)) := by
  induction n generalizing value with
  | zero => exact yields_pure (by omega)
  | succ n ih =>
    refine yields_read1.bind fun bit small => ?_
    intro r
    have bound := ih ((value * 2 + bit) % 2 ^ 32) r
    have le : (value * 2 + bit) % 2 ^ 32 + 1 ≤ 2 * (value + 1) :=
      Nat.succ_le_of_lt ((Nat.mod_le _ _).trans_lt (by omega))
    calc _ < 2 ^ n * ((value * 2 + bit) % 2 ^ 32 + 1) := bound
      _ ≤ 2 ^ n * (2 * (value + 1)) := Nat.mul_le_mul_left _ le
      _ = 2 ^ (n + 1) * (value + 1) := by rw [pow_succ, Nat.mul_assoc]

theorem yields_read3 : Yields (BitReader.read 3) (· < 8) := yields_readFrom 3 0

theorem runs_ues {α : Type} {rest : Metered α} {plainRest : BitParser α} {fits : BitReader → Prop}
    {cost : Nat} (n : Nat) (few : n ≤ limit) (second : Runs (Over d) rest plainRest fits cost) :
    Runs (Over d) (repeatRead readUe n >>= fun _ => rest)
      (repeatParser n BitReader.readUe >>= fun _ => plainRest) (Ues n fits) (limit * 65 + cost) :=
  ((runs_repeatRead runs_readUe n).bind fun _ => second).of_le
    (Nat.add_le_add_right (Nat.mul_le_mul_right 65 few) cost)

theorem runs_hevcParseSps :
    Runs (Over d) hevcParseSps Media.hevcParseSps SpsFits 550000 := by
  unfold hevcParseSps Media.hevcParseSps SpsFits
  apply Runs.of_le
  case runs =>
    apply (runs_read 4).andThen
    intro _
    apply (runs_read 3).andThen_of yields_read3
    intro maxSubLayersMinus1 few
    apply runs_read1.andThen
    intro _
    apply (runs_skipProfileTierLevel (maxSubLayersMinus1 + 1) few).andThen
    intro _
    apply runs_ue
    intro _
    apply runs_ue
    intro chroma
    apply (runs_readIf_true (int32 chroma = 3) runs_read1).join
    intro separate
    apply runs_ue
    intro width
    apply runs_ue
    intro height
    apply runs_read1.andThen
    intro window
    -- the conformance window and the bit depths
    rw [← repeatParser_ite (window ≠ 0) 4]
    apply runs_ues _ (by split <;> omega : _ ≤ 4)
    apply runs_ues 2 (Nat.le_refl 2)
    apply runs_ue
    intro log2Lsb
    apply runs_signed
    apply runs_read1.andThen
    intro ordering
    apply runs_ues _ (by split <;> omega : _ ≤ 24)
    apply runs_ue
    intro minCb
    apply runs_ue
    intro diffCb
    apply runs_ues 4 (Nat.le_refl 4)
    apply runs_read1.andThen
    intro scalingList
    apply (runs_readIf_true (scalingList ≠ 0) runs_read1).join
    intro scalingData
    apply Runs.ite
    case no =>
      intro _
      exact runs_parseSpsTail _
    case yes =>
      intro _
      exact runs_done _
  case le => decide

/-- What a slice can rely on in a parsed SPS. -/
structure Bounded (sps : HevcSpsState) : Prop where
  num : sps.numShortTermRefPicSets ≤ 64
  sets : ∀ rps ∈ sps.shortTermRpsSets, rps.length ≤ 192

theorem yields_spsSets (count : Nat) :
    let num : Int := if 64 < int32 count then 0 else int32 count
    Yields (Media.parseStRefPicSets num num.toNat []) fun sets =>
      num ≤ 64 ∧ ∀ rps ∈ sets, rps.length ≤ 192 := by
  intro num
  have few : num ≤ 64 := by
    dsimp only [num]
    split <;> omega
  have none : Growing [] := fun _ mem => absurd mem not_mem_nil
  intro r
  obtain ⟨growing, length⟩ := yields_parseStRefPicSets num num.toNat none
    (by rw [length_nil]; omega) r
  exact ⟨few, fun rps mem => (growing rps mem).trans (by omega)⟩

theorem yields_parseSpsTail (st : HevcSpsState) :
    Yields (Media.parseSpsTail st) Bounded := by
  unfold Media.parseSpsTail
  repeat' first
    | (with_reducible refine (yields_spsSets _).bind ?_; rintro sets ⟨few, short⟩)
    | (with_reducible apply yields_bind; intro _)
    | (with_reducible apply Yields.ite <;> intro _)
  all_goals exact yields_pure ⟨few, short⟩

theorem yields_hevcParseSps : Yields Media.hevcParseSps Bounded := by
  unfold Media.hevcParseSps
  repeat' first
    | with_reducible exact yields_parseSpsTail _
    | (with_reducible apply yields_bind; intro _)
    | (with_reducible apply Yields.ite <;> intro _)
  -- with scaling lists there are no sets
  all_goals
    exact yields_pure ⟨(by decide : (0 : Int) ≤ 64), fun _ mem => absurd mem not_mem_nil⟩

end Metered

/-! ## Slices -/

/-- The sums of the picture's size in blocks; the loop for the bits of an address needs a size of
at most 2³⁰. -/
def AddressFits (sps : HevcSpsState) : Prop :=
  let ctbLog2 := sps.log2MinLumaCodingBlockSizeMinus3 + 3 + sps.log2DiffMaxMinLumaCodingBlockSize
  let ctb : Int := 2 ^ ctbLog2.toNat
  let cw := (sps.picWidthInLumaSamples + ctb - 1).tdiv ctb
  let chh := (sps.picHeightInLumaSamples + ctb - 1).tdiv ctb
  InInt32 (sps.log2MinLumaCodingBlockSizeMinus3 + 3) ∧ InInt32 ctbLog2 ∧
    (¬ (ctbLog2 < 4 ∨ 6 < ctbLog2 ∨ sps.picWidthInLumaSamples = 0) →
      InInt32 (sps.picWidthInLumaSamples + ctb) ∧ InInt32 (sps.picWidthInLumaSamples + ctb - 1) ∧
      InInt32 (sps.picHeightInLumaSamples + ctb) ∧ InInt32 (sps.picHeightInLumaSamples + ctb - 1) ∧
      InInt32 (cw * chh) ∧ cw * chh ≤ 2 ^ 30)

def SliceSetFits (sps : HevcSpsState) : BitReader → Prop :=
  After BitReader.read1 fun stSpsFlag =>
    if stSpsFlag = 0 then
      SetFits sps.numShortTermRefPicSets sps.numShortTermRefPicSets sps.shortTermRpsSets
    else fun _ => True

def LongTermFits (sps : HevcSpsState) : BitReader → Prop :=
  if sps.longTermRefPicsPresentFlag then fun r =>
    (0 < sps.numLongTermRefPicsSps → UeFits r) ∧
      After (if 0 < sps.numLongTermRefPicsSps then BitReader.readUe else pure 0) (fun _ => UeFits) r
  else fun _ => True

def SliceFieldsFit (nt : UInt8) (sps : HevcSpsState) : BitReader → Prop :=
  Ue fun _ => After (if sps.separateColourPlaneFlag then BitReader.read 2 else pure 0) fun _ =>
  if hevcIsIdr nt then fun _ => True
  else After (BitReader.read sps.log2MaxPicOrderCntLsb) fun _ r =>
    SliceSetFits sps r ∧ After (parseSliceSet sps) (fun set =>
      match set with
      | .found _ => LongTermFits sps
      | _ => fun _ => True) r

def SliceFits (nt : UInt8) (sps : HevcSpsState) : BitReader → Prop :=
  After BitReader.read1 fun firstSlice =>
  After (if hevcIsIrap nt then BitReader.read1 else pure 0) fun _ => Ue fun _ =>
  if firstSlice ≠ 0 then SliceFieldsFit nt sps
  else fun r => AddressFits sps ∧
    match sliceAddressBits sps with
    | none => True
    | some bits => After (BitReader.read bits) (fun _ => SliceFieldsFit nt sps) r

namespace Metered

variable {d : Bytes} {scope : BitReader → Prop} {sps : HevcSpsState}

/-- Beyond 2³⁰ the loop comes to a power that is negative, and then to a shift by 32. -/
theorem runs_bitsLoop (num : Int) (left : Nat) (inside : left ≤ 31)
    (passed : ∀ bits < 31 - left, ¬ num ≤ 2 ^ bits) :
    Runs scope (bitsLoop num (left + 1)) (pure (Media.bitsFor num)) (fun _ => num ≤ 2 ^ 30)
      left := by
  induction left with
  | zero =>
    have large : ¬ num ≤ 2 ^ 30 := passed 30 (by omega)
    have negative : int32 (2 ^ (31 - 0)) < num := by
      have value : int32 (2 ^ (31 - 0)) = -2 ^ 31 := rfl
      omega
    rw [bitsLoop, if_pos negative]
    exact fun _ _ _ => ⟨fun small => absurd small large, fun _ => ⟨.shift, rfl⟩⟩
  | succ left ih =>
    have power : int32 (2 ^ (31 - (left + 1))) = 2 ^ (31 - (left + 1)) := by
      have small : 2 ^ (31 - (left + 1)) < 2 ^ 31 := Nat.pow_lt_pow_right (by decide) (by omega)
      rw [int32, if_pos small, Int.natCast_pow, Int.cast_ofNat_Int]
    rw [bitsLoop, power]
    by_cases more : (2 : Int) ^ (31 - (left + 1)) < num
    · rw [if_pos more]
      refine Runs.turn (ih (by omega) fun bits before => ?_)
      by_cases last : bits = 31 - (left + 1)
      · rw [last]
        exact not_le.mpr more
      · exact passed bits (by omega)
    · have reached : num ≤ 2 ^ (31 - (left + 1)) := not_lt.mp more
      have found : Media.bitsFor num = 31 - (left + 1) := by
        have first : (range 31).find? (fun bits => decide (num ≤ 2 ^ bits)) =
            some (31 - (left + 1)) := by
          rw [find?_range_eq_some]
          refine ⟨decide_eq_true reached, mem_range.mpr (by omega), fun bits before => ?_⟩
          simpa using passed bits before
        rw [Media.bitsFor, first, Option.getD_some]
      have small : num ≤ 2 ^ 30 := by
        have powers : 2 ^ (31 - (left + 1)) ≤ 2 ^ 30 := Nat.pow_le_pow_right (by decide) (by omega)
        exact reached.trans (by exact_mod_cast powers)
      rw [if_neg more, found]
      exact ((runs_pure _).congr fun _ _ => iff_of_true small trivial).of_le (Nat.zero_le _)

theorem runs_bitsFor (num : Int) :
    Runs scope (bitsFor num) (pure (Media.bitsFor num)) (fun _ => num ≤ 2 ^ 30) 31 :=
  runs_bitsLoop num 31 (Nat.le_refl 31) fun _ before => absurd before (Nat.not_lt_zero _)

theorem bitsFor_le (num : Int) : Media.bitsFor num ≤ 31 := by
  unfold Media.bitsFor
  cases found : (range 31).find? fun bits => decide (num ≤ 2 ^ bits) with
  | none => exact Nat.le_refl 31
  | some bits =>
    have mem := mem_range.mp (mem_of_find?_eq_some found)
    exact Nat.le_of_lt mem

theorem runs_ctbCount {α : Type} {plain : BitParser α} {fits : BitReader → Prop} {cost : Nat}
    {samples ctb : Int} {next : Int → Metered α}
    (rest : Runs scope (next ((samples + ctb - 1).tdiv ctb)) plain fits cost) :
    Runs scope (ctbCount samples ctb >>= next) plain
      (fun r => InInt32 (samples + ctb) ∧ InInt32 (samples + ctb - 1) ∧ fits r) cost := by
  rw [ctbCount, bind_assoc]
  simp only [bind_assoc, pure_bind]
  exact runs_signed (runs_signed rest)

theorem runs_addressOf (num : Int) :
    Runs scope (if num ≤ 1 then pure none else bitsFor num >>= fun bits => pure (some bits) :
        Metered (Option Nat))
      (pure (if num ≤ 1 then none else some (Media.bitsFor num)))
      (fun _ => num ≤ 2 ^ 30) 31 := by
  by_cases one : num ≤ 1
  · rw [if_pos one, if_pos one]
    exact ((runs_pure none).congr fun _ _ => iff_of_true (by omega) trivial).of_le (Nat.zero_le _)
  · rw [if_neg one, if_neg one]
    exact (runs_bitsFor num).map

theorem runs_sliceAddressBits :
    Runs scope (sliceAddressBits sps) (pure (Media.sliceAddressBits sps))
      (fun _ => AddressFits sps) 31 := by
  unfold sliceAddressBits Media.sliceAddressBits AddressFits
  apply runs_signed
  apply runs_signed
  generalize sps.log2MinLumaCodingBlockSizeMinus3 + 3 + sps.log2DiffMaxMinLumaCodingBlockSize =
    ctbLog2
  by_cases bad : ctbLog2 < 4 ∨ 6 < ctbLog2 ∨ sps.picWidthInLumaSamples = 0
  · simp only [bad, if_true, not_true_eq_false, false_imp_iff]
    exact runs_done _
  · simp only [bad, if_false, not_false_eq_true, true_imp_iff]
    apply runs_shiftBy (by omega) (by omega)
    apply runs_ctbCount
    apply runs_ctbCount
    apply runs_signed
    exact runs_addressOf _

theorem runs_parseSliceSet (bounded : Bounded sps) :
    Runs (Over d) (parseSliceSet sps) (Media.parseSliceSet sps) (SliceSetFits sps) 8448 := by
  unfold parseSliceSet Media.parseSliceSet SliceSetFits
  apply Runs.of_le
  case runs =>
    apply runs_read1.andThen
    intro stSpsFlag
    apply Runs.ite
    case yes =>
      intro _
      exact (runs_parseStRefPicSet bounded.sets (Nat.le_refl 192)).map
    case no =>
      intro _
      split
      · have few := bounded.num
        have short := bitsFor_le sps.numShortTermRefPicSets
        refine (((runs_bitsFor sps.numShortTermRefPicSets).value ((runs_read _).andThen
          fun idx => (?_ : Runs _ _ _ (fun _ => True) 0))).congr fun r _ => ?_).of_le ?_
        · cases found : sps.shortTermRpsSets[idx]? with
          | none =>
            rw [if_pos (getElem?_eq_none_iff.mp found)]
            exact runs_pure SliceSet.invalid
          | some rps =>
            rw [if_neg (Nat.not_le.mpr (List.getElem?_eq_some_iff.mp found).1)]
            exact runs_entry found (runs_pure _)
        · exact iff_of_true trivial ⟨by omega, trivial⟩
        · omega
      · cases sps.shortTermRpsSets with
        | nil => exact runs_done SliceSet.absent
        | cons rps sets =>
          have first : (rps :: sets)[0]? = some rps := rfl
          rw [if_neg (cons_ne_nil rps sets)]
          exact runs_entry first (runs_done _)
  case le => decide

theorem runs_parseLongTermCount :
    Runs (Over d) (parseLongTermCount sps) (Media.parseLongTermCount sps) (LongTermFits sps)
      128 := by
  unfold parseLongTermCount Media.parseLongTermCount LongTermFits
  apply Runs.ite
  case yes =>
    intro _
    exact (runs_readIf (0 < sps.numLongTermRefPicsSps) runs_readUe).bindIf fun _ =>
      runs_readUe.map
  case no =>
    intro _
    exact runs_done _

theorem read1_past {r : BitReader} (past : 8 * r.d.length ≤ r.pos) :
    (BitReader.read1 r).1 = 0 := by
  have none : r.d[r.pos / 8]? = none := getElem?_eq_none (by omega)
  rw [BitReader.read1, getD_eq_getElem?_getD, none, Option.getD_none, UInt8.toNat_zero,
    Nat.zero_shiftRight, Nat.zero_mod]

theorem countZeros_past (left : Nat) {r : BitReader} (past : 8 * r.d.length ≤ r.pos) :
    (BitReader.countZeros left r).1 = left := by
  induction left generalizing r with
  | zero => rfl
  | succ left ih =>
    have behind : 8 * (BitReader.read1 r).2.d.length ≤ (BitReader.read1 r).2.pos :=
      past.trans (Nat.le_succ r.pos)
    change ((if (BitReader.read1 r).1 = 0 then
      BitReader.countZeros left >>= fun zeros => pure (zeros + 1) else pure 0 : BitParser Nat)
        (BitReader.read1 r).2).1 = left + 1
    rw [if_pos (read1_past past)]
    exact congrArg (· + 1) (ih behind)

/-- Behind the end there is no code that fits. -/
theorem not_ueFits_past {r : BitReader} (past : 8 * r.d.length ≤ r.pos) : ¬ UeFits r := by
  rw [UeFits, countZeros_past 32 past]
  exact Nat.lt_irrefl 32

/-- Nor is there a set: a slice whose POC takes all bits of the header ends in a fault. -/
theorem SliceSetFits.inside {r : BitReader} (fits : SliceSetFits sps r) :
    r.pos < 8 * r.d.length := by
  by_contra ends
  have past : 8 * r.d.length ≤ r.pos := Nat.le_of_not_lt ends
  have behind : 8 * (BitReader.read1 r).2.d.length ≤ (BitReader.read1 r).2.pos :=
    past.trans (Nat.le_succ r.pos)
  simp only [SliceSetFits, After, if_pos (read1_past past), SetFits] at fits
  by_cases first : sps.numShortTermRefPicSets = 0
  · simp only [if_neg (not_not.mpr first)] at fits
    exact not_ueFits_past behind fits.1
  · simp only [if_pos first, if_neg (not_not.mpr (read1_past behind))] at fits
    have further : 8 * (BitReader.read1 (BitReader.read1 r).2).2.d.length ≤
        (BitReader.read1 (BitReader.read1 r).2).2.pos := behind.trans (Nat.le_succ _)
    exact not_ueFits_past further fits.1

theorem readFrom_source (n value : Nat) (r : BitReader) :
    (BitReader.readFrom n value r).2 = { r with pos := r.pos + n } := by
  induction n generalizing value r with
  | zero => rfl
  | succ n ih =>
    change (BitReader.readFrom n _ (BitReader.read1 r).2).2 = _
    rw [ih, BitReader.read1, Nat.add_right_comm, Nat.add_assoc]

theorem log2_le_of_fits {log2 : Int} {fits : BitReader → Prop} {r : BitReader}
    (same : Over d r)
    (inside : After (BitReader.read log2) (fun _ r => SliceSetFits sps r ∧ fits r) r) :
    log2.toNat ≤ 8 * d.length := by
  have before := SliceSetFits.inside inside.1
  rw [BitReader.read, readFrom_source] at before
  rw [← same]
  exact (Nat.le_add_left _ r.pos).trans (Nat.le_of_lt before)

theorem runs_parseSliceFields (nt : UInt8) (bounded : Bounded sps) :
    Runs (Over d) (parseSliceFields nt sps) (Media.parseSliceFields nt sps)
      (SliceFieldsFit nt sps) (8 * d.length + 8642) := by
  unfold parseSliceFields Media.parseSliceFields SliceFieldsFit
  apply Runs.of_le
  case runs =>
    apply runs_ue
    intro sliceType
    apply (runs_readIf_true (sps.separateColourPlaneFlag = true) (runs_read 2)).join
    intro _
    apply Runs.ite
    case no =>
      intro _
      -- the bits of the POC lie in front of the set, and that inside the slice
      refine ((runs_read sps.log2MaxPicOrderCntLsb).andThen fun pocLsb =>
        (runs_parseSliceSet bounded).bind fun set => (?_ : Runs _ _ _ _ 128)).mono
          (fun r same fits => ?_ : ∀ r, _ → _ → _ ≤ 8 * d.length + 8576)
      · cases set with
        | invalid => exact runs_done none
        | absent => exact runs_done _
        | found deltas =>
          refine (runs_parseLongTermCount.bind fun numLt => runs_overrun.andThen fun overran =>
            (?_ : Runs _ _ _ (fun _ => True) 0)).congr fun _ _ => (and_iff_left trivial).symm
          cases overran <;> exact runs_pure _
      · exact Nat.add_le_add_right (log2_le_of_fits same fits) 8576
    case yes =>
      intro _
      exact runs_done _
  case le => omega

theorem sliceAddressBits_le {bits : Nat} (some : Media.sliceAddressBits sps = some bits) :
    bits ≤ 31 := by
  unfold Media.sliceAddressBits at some
  dsimp only at some
  split at some
  · exact absurd some (Option.some_ne_none bits).symm
  · split at some
    · exact absurd some (Option.some_ne_none bits).symm
    · exact Option.some_inj.mp some ▸ bitsFor_le _

theorem runs_hevcParseSliceRps (nt : UInt8) (bounded : Bounded sps) :
    Runs (Over d) (hevcParseSliceRps nt sps) (Media.hevcParseSliceRps nt sps)
      (SliceFits nt sps) (8 * d.length + 8768) := by
  unfold hevcParseSliceRps Media.hevcParseSliceRps SliceFits
  apply Runs.of_le
  case runs =>
    apply runs_read1.andThen
    intro firstSlice
    apply (runs_readIf_true (hevcIsIrap nt = true) runs_read1).join
    intro _
    apply runs_ue
    intro _
    apply Runs.ite
    case no =>
      intro _
      refine runs_sliceAddressBits.value (?_ : Runs _ _ _ _ (8 * d.length + 8673))
      cases address : Media.sliceAddressBits sps with
      | none => exact runs_done none
      | some bits =>
        have short := sliceAddressBits_le address
        exact ((runs_read bits).andThen fun _ => runs_parseSliceFields nt bounded).of_le (by omega)
    case yes =>
      intro _
      exact (runs_parseSliceFields nt bounded).of_le (by omega)
  case le => omega

end Metered

/-! ## The tracker -/

/-- The differences that are computed, and the part of the POC they lead to if it is new. -/
def MsbFits (range msb prevLsb lsb : Int) : Prop :=
  (lsb < prevLsb → InInt32 (prevLsb - lsb)) ∧ (prevLsb < lsb → InInt32 (lsb - prevLsb)) ∧
    (lsb < prevLsb ∧ range / 2 ≤ prevLsb - lsb ∨ prevLsb < lsb ∧ range / 2 < lsb - prevLsb →
      InInt32 (pocMsb range msb prevLsb lsb))

/-- The two parts of the POC, in the 32 bits of `check_slice`. -/
def pocParts (tracker : HevcRpsTracker) (nal : Bytes) (res : SliceRps) : Int × Int :=
  if isIdrNal nal then (0, 0)
  else
    (pocMsb (int32 (2 ^ tracker.sps.log2MaxPicOrderCntLsb.toNat)) tracker.prevPocMsb
      tracker.prevPocLsb (int32 res.pocLsb), int32 res.pocLsb)

/-- The shift to the range of the least significant part is by less than 32, and the POC and its
sums with the deltas of the references fit. -/
def PocFits (tracker : HevcRpsTracker) (nal : Bytes) (res : SliceRps) : Prop :=
  let log2 := tracker.sps.log2MaxPicOrderCntLsb
  let poc := (pocParts tracker nal res).1 + (pocParts tracker nal res).2
  (0 ≤ log2 ∧ log2 < 32) ∧
    (isIdrNal nal = false →
      MsbFits (int32 (2 ^ log2.toNat)) tracker.prevPocMsb tracker.prevPocLsb (int32 res.pocLsb)) ∧
    InInt32 poc ∧ ∀ ref ∈ res.deltas, ref.2 → InInt32 (poc + ref.1) ∧ InInt32 (-ref.1)

namespace Metered

variable {d : Bytes} {scope : BitReader → Prop} {sps : HevcSpsState} {tracker : HevcRpsTracker}

theorem runs_signedIf (need : Prop) [Decidable need] (value : Int) :
    Runs scope (if need then signed value else pure 0 : Metered Int)
      (pure (if need then value else 0)) (fun _ => need → InInt32 value) 0 := by
  by_cases holds : need
  · simp only [holds, if_true, true_imp_iff]
    exact runs_signedValue value
  · simp only [holds, if_false, false_imp_iff]
    exact runs_pure 0

theorem runs_pocMsb (range msb prevLsb lsb : Int) :
    Runs scope (pocMsb range msb prevLsb lsb) (pure (Media.pocMsb range msb prevLsb lsb))
      (fun _ => MsbFits range msb prevLsb lsb) 0 := by
  have back : lsb < prevLsb ∧ range / 2 ≤ (if lsb < prevLsb then prevLsb - lsb else 0) ↔
      lsb < prevLsb ∧ range / 2 ≤ prevLsb - lsb := and_congr_right fun less => by rw [if_pos less]
  have forth : prevLsb < lsb ∧ range / 2 < (if prevLsb < lsb then lsb - prevLsb else 0) ↔
      prevLsb < lsb ∧ range / 2 < lsb - prevLsb := and_congr_right fun less => by rw [if_pos less]
  unfold pocMsb MsbFits
  apply Runs.of_le
  case runs =>
    apply (runs_signedIf (lsb < prevLsb) (prevLsb - lsb)).value
    apply (runs_signedIf (prevLsb < lsb) (lsb - prevLsb)).value
    simp only [back, forth, Media.pocMsb]
    by_cases wraps : lsb < prevLsb ∧ range / 2 ≤ prevLsb - lsb
    · simp only [if_pos wraps]
      exact (runs_signedValue _).congr
        fun _ _ => ⟨fun fits => fits (.inl wraps), fun fits _ => fits⟩
    · by_cases falls : prevLsb < lsb ∧ range / 2 < lsb - prevLsb
      · simp only [if_neg wraps, if_pos falls]
        exact (runs_signedValue _).congr
          fun _ _ => ⟨fun fits => fits (.inr falls), fun fits _ => fits⟩
      · simp only [if_neg wraps, if_neg falls]
        exact (runs_pure msb).congr
          fun _ _ => iff_of_true (fun either => absurd either (not_or.mpr ⟨wraps, falls⟩)) trivial
  case le => exact Nat.le_refl 0

theorem runs_checkRefs (poc : Int) (deltas : ShortTermRps) :
    Runs scope (checkRefs poc deltas) (pure ())
      (fun _ => ∀ ref ∈ deltas, ref.2 → InInt32 (poc + ref.1) ∧ InInt32 (-ref.1))
      deltas.length := by
  induction deltas with
  | nil => exact (runs_pure ()).congr fun _ _ => by simp
  | cons ref deltas ih =>
    obtain ⟨delta, used⟩ := ref
    simp only [forall_mem_cons, length_cons]
    apply Runs.turn
    cases used with
    | false =>
      simp only [Bool.false_eq_true, if_false, false_imp_iff, true_and]
      exact ih
    | true =>
      simp only [if_true, true_imp_iff, and_assoc]
      exact runs_signed (runs_signed ih)

theorem runs_slicePoc (poc : Int) (deltas : ShortTermRps) :
    Runs scope (signed poc >>= fun poc => checkRefs poc deltas >>= fun _ => pure poc) (pure poc)
      (fun _ => InInt32 poc ∧
        ∀ ref ∈ deltas, ref.2 → InInt32 (poc + ref.1) ∧ InInt32 (-ref.1)) deltas.length :=
  runs_signed (runs_checkRefs poc deltas).map

theorem runs_checkParsed (tracker : HevcRpsTracker) (nal : Bytes) (res : SliceRps) :
    Runs scope (checkParsed tracker nal res)
      (pure ((pocParts tracker nal res).1 + (pocParts tracker nal res).2))
      (fun _ => PocFits tracker nal res) res.deltas.length := by
  unfold checkParsed PocFits pocParts
  cases idr : isIdrNal nal with
  | true =>
    simp only [if_true, Bool.true_eq_false, false_imp_iff, true_and, pure_bind]
    exact Runs.demand fun _ => runs_slicePoc _ res.deltas
  | false =>
    simp only [Bool.false_eq_true, if_false, true_imp_iff]
    refine Runs.demand fun _ => ((runs_pocMsb _ _ _ _).value (runs_slicePoc _ res.deltas)).of_le ?_
    exact Nat.le_of_eq (Nat.zero_add _)

theorem yields_parseSliceSet (bounded : Bounded sps) :
    Yields (Media.parseSliceSet sps) fun set =>
      ∀ deltas, set = .found deltas → deltas.length ≤ 193 := by
  refine yields_bind _ fun stSpsFlag => Yields.ite (fun _ => ?_) fun _ => Yields.ite (fun _ => ?_)
    fun _ => ?_
  · refine (yields_parseStRefPicSet bounded.sets (by decide)).bind fun rps short => yields_pure ?_
    intro deltas eq
    exact SliceSet.found.inj eq ▸ short
  · refine yields_bind _ fun idx => yields_pure fun deltas eq => ?_
    cases found : sps.shortTermRpsSets[idx]? with
    | none => simp [found] at eq
    | some rps =>
      rw [found] at eq
      have short := bounded.sets rps (mem_of_getElem? found)
      exact SliceSet.found.inj eq ▸ short.trans (by decide)
  · refine yields_pure fun deltas eq => ?_
    cases found : sps.shortTermRpsSets.head? with
    | none => simp [found] at eq
    | some rps =>
      rw [found] at eq
      have short := bounded.sets rps (mem_of_head? found)
      exact SliceSet.found.inj eq ▸ short.trans (by decide)

/-- The references of a slice are those of one set. -/
def FewDeltas (res : Option SliceRps) : Prop := ∀ slice ∈ res, slice.deltas.length ≤ 193

theorem fewDeltas_none : FewDeltas none := fun _ mem => absurd mem (Option.not_mem_none _)

theorem fewDeltas_some {slice : SliceRps} (few : slice.deltas.length ≤ 193) :
    FewDeltas (some slice) := fun _ mem => Option.mem_some.mp mem ▸ few

theorem yields_parseSliceFields (nt : UInt8) (bounded : Bounded sps) :
    Yields (Media.parseSliceFields nt sps) FewDeltas := by
  refine yields_bind _ fun sliceType => Yields.ite (fun _ => yields_bind _ fun _ => ?_) fun _ => ?_
  all_goals
    refine Yields.ite (fun _ => yields_pure (fewDeltas_some (Nat.zero_le _))) fun _ => ?_
    refine yields_bind _ fun pocLsb => (yields_parseSliceSet bounded).bind fun set few => ?_
    cases set with
    | invalid => exact yields_pure fewDeltas_none
    | absent => exact yields_pure (fewDeltas_some (Nat.zero_le _))
    | found deltas =>
      refine yields_bind _ fun numLt => yields_bind _ fun overran => ?_
      refine Yields.ite (fun _ => yields_pure fewDeltas_none) fun _ => yields_pure ?_
      apply fewDeltas_some
      dsimp only
      split
      · exact Nat.zero_le _
      · exact few deltas rfl

theorem yields_hevcParseSliceRps (nt : UInt8) (bounded : Bounded sps) :
    Yields (Media.hevcParseSliceRps nt sps) FewDeltas := by
  have fields := yields_parseSliceFields nt bounded
  refine yields_bind _ fun firstSlice => Yields.ite (fun _ => yields_bind _ fun _ => ?_) fun _ => ?_
  all_goals
    refine yields_bind _ fun _ => Yields.ite (fun _ => fields) fun _ => ?_
    cases Media.sliceAddressBits sps with
    | none => exact yields_pure fewDeltas_none
    | some bits => exact yields_bind _ fun _ => fields

theorem runs_checkSlice (bounded : Bounded tracker.sps) (nal : Bytes)
    (usable : tracker.sps.parsed = true ∧ 3 ≤ nal.length) :
    Runs (Over d) (checkSlice tracker nal)
      (Media.hevcParseSliceRps (hevcNalType (nal.getD 0 0)) tracker.sps >>= fun res =>
        pure (res.map fun slice =>
          (pocParts tracker nal slice).1 + (pocParts tracker nal slice).2))
      (fun r => SliceFits (hevcNalType (nal.getD 0 0)) tracker.sps r ∧
        After (Media.hevcParseSliceRps (hevcNalType (nal.getD 0 0)) tracker.sps)
          (fun res _ => ∀ slice ∈ res, PocFits tracker nal slice) r)
      (8 * d.length + 8961) := by
  have go : ¬ (tracker.sps.parsed = false ∨ nal.length < 3) := by
    rw [usable.1]
    simp only [Bool.true_eq_false, false_or]
    omega
  have found : nal[0]? = some (nal.getD 0 0) := by
    rw [getD_eq_getElem?_getD, getElem?_eq_getElem (by omega), Option.getD_some]
  rw [checkSlice, if_neg go]
  refine runs_entry found ((runs_hevcParseSliceRps _ bounded).bind_of
    (yields_hevcParseSliceRps _ bounded) fun res few => (?_ : Runs _ _ _ _ 193))
  cases res with
  | none =>
    exact ((runs_pure none).congr fun _ _ => iff_of_true
      (fun _ mem => absurd mem (Option.not_mem_none _)) trivial).of_le (Nat.zero_le _)
  | some slice =>
    refine ((runs_checkParsed tracker nal slice).map.congr fun _ _ => ?_).of_le (few slice rfl)
    simp only [Option.mem_some, forall_eq']

end Metered

theorem length_removeEmulationPrevention_le (d : Bytes) :
    (removeEmulationPrevention d).length ≤ d.length := by
  induction d using removeEmulationPrevention.induct with
  | case1 a b c rest escaped ih =>
    rw [removeEmulationPrevention, if_pos escaped, length_cons, length_cons]
    simp only [length_cons]
    omega
  | case2 a b c rest plain ih =>
    rw [removeEmulationPrevention, if_neg plain, length_cons, length_cons]
    exact Nat.succ_le_succ ih
  | case3 bytes short => rw [removeEmulationPrevention.eq_2 bytes short]

theorem length_sliceRbsp_le (nal : Bytes) : (Metered.sliceRbsp nal).length ≤ nal.length := by
  refine (length_removeEmulationPrevention_le _).trans ?_
  rw [length_take, length_drop]
  omega

/-- What `check_slice` needs of the slice behind the SPS of the tracker. -/
def CheckFits (tracker : HevcRpsTracker) (nal : Bytes) : Prop :=
  tracker.sps.parsed = true ∧ 3 ≤ nal.length →
    SliceFits (hevcNalType (nal.getD 0 0)) tracker.sps ⟨Metered.sliceRbsp nal, 0⟩ ∧
      ∀ res, sliceRps tracker.sps nal = some res → PocFits tracker nal res

theorem run_checkSlice (tracker : HevcRpsTracker) (bounded : Metered.Bounded tracker.sps)
    (nal : Bytes) (steps : Nat) :
    (CheckFits tracker nal → ∃ poc checked,
      Metered.checkSlice tracker nal ⟨⟨Metered.sliceRbsp nal, 0⟩, steps⟩ = .ok (poc, checked) ∧
        checked.steps ≤ steps + (8 * nal.length + 8961)) ∧
    (¬ CheckFits tracker nal → ∃ fault,
      Metered.checkSlice tracker nal ⟨⟨Metered.sliceRbsp nal, 0⟩, steps⟩ = .error fault) := by
  by_cases usable : tracker.sps.parsed = true ∧ 3 ≤ nal.length
  · have reads : sliceRps tracker.sps nal = (hevcParseSliceRps (hevcNalType (nal.getD 0 0))
        tracker.sps ⟨Metered.sliceRbsp nal, 0⟩).1 := by
      have go : ¬ (tracker.sps.parsed = false ∨ nal.length < 3) := by
        rw [usable.1]
        simp only [Bool.true_eq_false, false_or]
        omega
      exact if_neg go
    obtain ⟨good, bad⟩ := Metered.runs_checkSlice (d := Metered.sliceRbsp nal) bounded nal usable
      ⟨Metered.sliceRbsp nal, 0⟩ steps rfl
    unfold CheckFits
    rw [reads]
    refine ⟨fun fits => ?_, fun no => bad fun fits => no fun _ => fits⟩
    obtain ⟨-, spent, bound, ran⟩ := good (fits usable)
    have length := length_sliceRbsp_le nal
    exact ⟨_, _, ran, bound.trans (by omega)⟩
  · have stop : tracker.sps.parsed = false ∨ nal.length < 3 := by
      cases parsed : tracker.sps.parsed
      · exact .inl rfl
      · exact .inr (by simpa [parsed] using usable)
    refine ⟨fun _ => ⟨none, ⟨⟨Metered.sliceRbsp nal, 0⟩, steps⟩, ?_, Nat.le_add_right _ _⟩,
      fun no => absurd (fun both => absurd both usable) no⟩
    rw [Metered.checkSlice, if_pos stop]
    rfl

/-- The SPS fits and then, with it, the slice. -/
def HeadersFit (tracker : HevcRpsTracker) (payload nal : Bytes) : Prop :=
  SpsFits ⟨removeEmulationPrevention payload, 0⟩ ∧ CheckFits (tracker.feedSps payload) nal

theorem feedSps_eq (tracker : HevcRpsTracker) (payload : Bytes) :
    tracker.feedSps payload =
      { tracker with sps := (hevcParseSps ⟨removeEmulationPrevention payload, 0⟩).1 } := by
  rw [HevcRpsTracker.feedSps, StateT.run]

/-- The headers are read without a shift too wide, an overflow or an index out of range, and in
a number of loop turns bounded by their length, exactly if their numbers fit. -/
theorem checkHeaders_ok_iff (tracker : HevcRpsTracker) (payload nal : Bytes) :
    (∃ poc steps, checkHeaders tracker payload nal = .ok (poc, steps) ∧
      steps ≤ 8 * nal.length + 558961) ↔ HeadersFit tracker payload nal := by
  have parses := Metered.runs_hevcParseSps ⟨removeEmulationPrevention payload, 0⟩ 0 rfl
  have bounded := Metered.yields_hevcParseSps ⟨removeEmulationPrevention payload, 0⟩
  rw [HeadersFit, feedSps_eq]
  generalize hevcParseSps ⟨removeEmulationPrevention payload, 0⟩ = parsed at parses bounded ⊢
  by_cases fits : SpsFits ⟨removeEmulationPrevention payload, 0⟩
  · obtain ⟨-, fed, first, ran⟩ := parses.1 fits
    let fedTracker : HevcRpsTracker := { tracker with sps := parsed.1 }
    have checks := run_checkSlice fedTracker bounded nal fed
    have whole : checkHeaders tracker payload nal =
        (Metered.checkSlice { tracker with sps := parsed.1 } nal
            ⟨⟨Metered.sliceRbsp nal, 0⟩, fed⟩ >>= fun step => pure (step.1, step.2.steps)) := by
      rw [checkHeaders, ran]
      rfl
    rw [whole]
    constructor
    · rintro ⟨poc, steps, ran, -⟩
      refine ⟨fits, by_contra fun no => ?_⟩
      obtain ⟨fault, stops⟩ := checks.2 no
      rw [stops] at ran
      exact absurd ran nofun
    · rintro ⟨-, slice⟩
      obtain ⟨poc, checked, runs, second⟩ := checks.1 slice
      rw [runs]
      refine ⟨poc, checked.steps, rfl, second.trans ?_⟩
      rw [Nat.zero_add] at first
      calc fed + (8 * nal.length + 8961) ≤ 550000 + (8 * nal.length + 8961) :=
            Nat.add_le_add_right first _
        _ = 8 * nal.length + 558961 := by ring
  · obtain ⟨fault, stops⟩ := parses.2 fits
    refine iff_of_false ?_ fun both => fits both.1
    rintro ⟨poc, steps, ran, -⟩
    rw [checkHeaders, stops] at ran
    exact absurd ran nofun

/-- A picture of 1920 by 1080 and a slice that refers to the one before. -/
example : (checkHeaders {} [1, 0, 0, 0, 0, 0, 0, 0, 0, 0, 0, 0, 0, 160, 3, 192, 128, 16, 229, 148,
      94, 73, 54, 75, 128] [2, 1, 208, 12]).toOption.map (·.1) = some (some 1) := by
  decide +kernel

/-- Thirty-two zero bits where a number should be: one is shifted by the width of its type. -/
theorem readUe_shifts : checkHeaders {} [] [] = .error .shift := by
  decide +kernel

end Scshr.Media
