import Scshr.Lib.FrontReader
import Scshr.Media.Rbsp

/-! The SPS patch of the AVC decoder (`avc_patch_sps_dpb` of `media/avc_util.cpp`), which works
on the bits as they stand, emulation prevention included. -/
namespace Scshr.Media.SpsPatch

open Common Lib Lib.ExpGolomb FrontReader List

/-! ## The parser -/

/-- Behind `bad` every way out returns the input, as it does where the patch is not tried, so
that both are failures. -/
abbrev SpsReader := FrontReader Bool

def uFrom : Nat → Nat → SpsReader Nat
  | 0, v => pure v
  | n + 1, v => do
    let bit ← item
    uFrom n (v * 2 + bit.toNat)

def u (n : Nat) : SpsReader Nat := uFrom n 0

/-- The first loop of `ue`, which may still count `left` zeros. -/
def countZeros : Nat → SpsReader Nat
  | 0 => do
    let bit ← item
    if bit then pure 0 else failure
  | left + 1 => do
    let bit ← item
    if bit then pure 0
    else
      let zeros ← countZeros left
      pure (zeros + 1)

def ue : SpsReader Nat := do
  let z ← countZeros 31
  let suffix ← u z
  pure (2 ^ z - 1 + suffix)

def readMany : Nat → SpsReader (List Nat)
  | 0 => pure []
  | n + 1 => do
    let value ← ue
    let values ← readMany n
    pure (value :: values)

def chromaProfiles : List Nat := [100, 110, 122, 244, 44, 83, 86, 118, 128, 138, 139, 134, 135]

def readChroma : SpsReader (List Nat) := do
  let cfi ← ue
  let separate ← readIf (cfi = 3) (u 1) 0
  let luma ← ue
  let chroma ← ue
  let bypass ← u 1
  let scalingMatrix ← u 1
  if scalingMatrix ≠ 0 then failure else pure [cfi, separate, luma, chroma, bypass]

def readPoc : SpsReader (List Nat) := do
  let poc ← ue
  if poc = 0 then
    let lsb ← ue
    pure [poc, lsb]
  else if poc = 1 then
    let always ← u 1
    let nonRef ← ue
    let topToBottom ← ue
    let n ← ue
    if n > 255 then failure
    else
      let offsets ← readMany n
      pure (poc :: always :: nonRef :: topToBottom :: n :: offsets)
  else pure [poc]

/-- The syntax elements in front of `max_num_ref_frames`; `between` are those behind the
level. -/
structure SpsFront where
  profile : Nat
  constraints : Nat
  level : Nat
  between : List Nat
  deriving DecidableEq, Repr

def readBetween (profile : Nat) : SpsReader (List Nat) := do
  let id ← ue
  let chroma ← readIf (profile ∈ chromaProfiles) readChroma []
  let frameNum ← ue
  let poc ← readPoc
  pure (id :: chroma ++ frameNum :: poc)

def readFront : SpsReader SpsFront := do
  let profile ← u 8
  let constraints ← u 8
  let level ← u 8
  let between ← readBetween profile
  pure { profile, constraints, level, between }

/-! ## The patch -/

/-- Shifting the last byte up fills it with zeros. -/
def packBits : List Bool → Bytes
  | [] => []
  | bit :: bits =>
    let chunk := bit :: bits.take 7
    UInt8.ofNat (valueOf (chunk ++ replicate (8 - chunk.length) false)) :: packBits (bits.drop 7)
termination_by bits => bits.length
decreasing_by simp only [length_drop, length_cons]; omega

/-- What the patch reads: the code of `max_num_ref_frames` begins where `coded` does (`ms`) and
ends where `rest` begins (`me`). -/
structure SpsParse where
  front : SpsFront
  mnrf : Nat
  coded : List Bool
  rest : List Bool
  deriving DecidableEq, Repr

def readSps (sps : Bytes) : Option SpsParse :=
  if sps.length < 4 ∨ sps.headD 0 &&& 0x1f ≠ 7 then none
  else do
    let (front, coded) ← readFront (bitsOf sps.tail)
    let (mnrf, rest) ← ue coded
    some { front, mnrf, coded, rest }

def avcPatchSpsDpb (sps : Bytes) : Bytes :=
  match readSps sps with
  | none => sps
  | some parsed =>
    let bits := bitsOf sps.tail
    let nb :=
      if parsed.mnrf < 16 then
        bits.take (bits.length - parsed.coded.length) ++ golomb 16 ++ parsed.rest
      else bits
    sps.headD 0 :: packBits (nb.take 16 ++ fixed 8 60 ++ nb.drop 24)

/-! ## Packing -/

theorem packBits_append (full : chunk.length = 8) (rest : List Bool) :
    packBits (chunk ++ rest) = UInt8.ofNat (valueOf chunk) :: packBits rest := by
  cases chunk with
  | nil => cases full
  | cons bit bits =>
    have seven : bits.length = 7 := Nat.succ.inj full
    rw [cons_append, packBits, take_left' seven, drop_left' seven, full, Nat.sub_self,
      replicate_zero, append_nil]

theorem packBits_bitsOf (bytes : Bytes) : packBits (bitsOf bytes) = bytes := by
  induction bytes with
  | nil => exact packBits.eq_1
  | cons octet bytes ih =>
    have whole : octet.toNat % 2 ^ 8 = octet.toNat := Nat.mod_eq_of_lt octet.toNat_lt
    rw [bitsOf, flatMap_cons, packBits_append (length_fixed 8 _), valueOf_fixed, whole,
      UInt8.ofNat_toNat]
    exact congrArg _ ih

theorem fixed_octet (full : chunk.length = 8) :
    fixed 8 (UInt8.ofNat (valueOf chunk)).toNat = chunk := by
  rcases chunk with
    - | ⟨a, - | ⟨b, - | ⟨c, - | ⟨d, - | ⟨e, - | ⟨f, - | ⟨g, - | ⟨h, - | ⟨_, rest⟩⟩⟩⟩⟩⟩⟩⟩⟩
  all_goals simp at full
  revert a b c d e f g h
  decide +kernel

theorem bitsOf_packBits (bits : List Bool) :
    ∃ zeros < 8, bitsOf (packBits bits) = bits ++ replicate zeros false := by
  induction size : bits.length using Nat.strong_induction_on generalizing bits with
  | _ n ih =>
    cases bits with
    | nil => exact ⟨0, by decide, by rw [packBits]; rfl⟩
    | cons bit bits =>
      have short : (bit :: bits.take 7).length ≤ 8 := by simp
      rw [packBits, bitsOf, flatMap_cons,
        fixed_octet (by rw [length_append, length_replicate, Nat.add_sub_cancel' short])]
      by_cases last : bits.length < 7
      · refine ⟨8 - (bit :: bits.take 7).length, Nat.sub_lt (by decide) (Nat.succ_pos _), ?_⟩
        rw [drop_eq_nil_of_le last.le, take_of_length_le last.le, packBits]
        exact append_nil _
      · obtain ⟨zeros, few, later⟩ := ih (bits.drop 7).length
          (by rw [length_drop, ← size, length_cons]; omega) (bits.drop 7) rfl
        refine ⟨zeros, few, ?_⟩
        have full : 8 - (bit :: bits.take 7).length = 0 := by
          rw [length_cons, length_take]
          omega
        change _ ++ bitsOf (packBits (bits.drop 7)) = _
        rw [later, full, replicate_zero, append_nil, ← append_assoc, cons_append,
          take_append_drop]

/-! ## Reading the patched bits -/

theorem takes_uFrom (h : uFrom n v input = some (value, rest)) :
    ∃ used, used.length = n ∧ input = used ++ rest ∧ (uFrom n v).Takes used value := by
  induction n generalizing v input with
  | zero =>
    cases h
    exact ⟨[], rfl, rfl, takes_pure _⟩
  | succ n ih =>
    cases input with
    | nil => cases h
    | cons bit input =>
      obtain ⟨used, length, rfl, taken⟩ := @ih (v * 2 + bit.toNat) input h
      exact ⟨bit :: used, congrArg (· + 1) length, rfl, taken⟩

theorem local_u (n : Nat) : Local (u n) := by
  intro input value rest h
  obtain ⟨used, -, split, taken⟩ := takes_uFrom h
  exact ⟨used, split, taken⟩

theorem local_countZeros (left : Nat) : Local (countZeros left) := by
  induction left with
  | zero => exact local_item.bind fun _ => (local_pure 0).ite local_failure
  | succ left ih =>
    exact local_item.bind fun _ => (local_pure 0).ite (ih.bind fun _ => local_pure _)

theorem local_ue : Local ue :=
  (local_countZeros 31).bind fun z => (local_u z).bind fun _ => local_pure _

theorem local_readMany (n : Nat) : Local (readMany n) := by
  induction n with
  | zero => exact local_pure _
  | succ n ih => exact local_ue.bind fun _ => ih.bind fun _ => local_pure _

theorem local_readChroma : Local readChroma :=
  local_ue.bind fun _ => ((local_u 1).readIf 0).bind fun _ => local_ue.bind fun _ =>
    local_ue.bind fun _ => (local_u 1).bind fun _ => (local_u 1).bind fun _ =>
      local_failure.ite (local_pure _)

theorem local_readPoc : Local readPoc :=
  local_ue.bind fun _ => (local_ue.bind fun _ => local_pure _).ite
    (((local_u 1).bind fun _ => local_ue.bind fun _ => local_ue.bind fun _ => local_ue.bind
      fun n => local_failure.ite ((local_readMany n).bind fun _ => local_pure _)).ite
        (local_pure _))

theorem local_readBetween (profile : Nat) : Local (readBetween profile) :=
  local_ue.bind fun _ => (local_readChroma.readIf []).bind fun _ =>
    local_ue.bind fun _ => local_readPoc.bind fun _ => local_pure _

/-- The level stands behind sixteen bits, and another one in its place changes nothing else. -/
theorem readFront_layout (h : readFront bits = some (front, coded)) :
    ∃ tags level between, tags.length = 16 ∧ level.length = 8 ∧
      bits = tags ++ (level ++ (between ++ coded)) ∧ ∀ other value, (u 8).Takes other value →
        readFront.Takes (tags ++ (other ++ between)) { front with level := value } := by
  obtain ⟨profile, _, hprofile, h⟩ := bind_eq_some h
  obtain ⟨constraints, _, hconstraints, h⟩ := bind_eq_some h
  obtain ⟨level, _, hlevel, h⟩ := bind_eq_some h
  obtain ⟨between, _, hbetween, h⟩ := bind_eq_some h
  cases h
  obtain ⟨first, firstLength, rfl, firstTaken⟩ := takes_uFrom hprofile
  obtain ⟨second, secondLength, rfl, secondTaken⟩ := takes_uFrom hconstraints
  obtain ⟨third, thirdLength, rfl, -⟩ := takes_uFrom hlevel
  obtain ⟨fourth, rfl, fourthTaken⟩ := local_readBetween profile _ _ _ hbetween
  refine ⟨first ++ second, third, fourth, by rw [length_append, firstLength, secondLength],
    thirdLength, (append_assoc ..).symm, fun other value taken => ?_⟩
  have all : readFront.Takes (first ++ (second ++ (other ++ (fourth ++ []))))
      { profile, constraints, level := value, between } :=
    Takes.bind firstTaken (Takes.bind secondTaken (Takes.bind taken
      (Takes.bind fourthTaken (takes_pure _))))
  rwa [append_nil, ← append_assoc] at all

theorem readSps_eq_some (h : readSps sps = some parsed) :
    ¬ (sps.length < 4 ∨ sps.headD 0 &&& 0x1f ≠ 7) ∧
      readFront (bitsOf sps.tail) = some (parsed.front, parsed.coded) ∧
      ue parsed.coded = some (parsed.mnrf, parsed.rest) := by
  unfold readSps at h
  split at h
  · cases h
  · next patched =>
    obtain ⟨_, found, h⟩ := Option.bind_eq_some_iff.mp h
    obtain ⟨_, counted, h⟩ := Option.bind_eq_some_iff.mp h
    cases h
    exact ⟨patched, found, counted⟩

/-- The code of the number of reference frames in the patched SPS. -/
def patchedCode (mnrf : Nat) (code : List Bool) : List Bool :=
  if mnrf < 16 then golomb 16 else code

theorem takes_patchedCode (taken : ue.Takes code mnrf) :
    ue.Takes (patchedCode mnrf code) (max mnrf 16) := by
  unfold patchedCode
  split
  · next small =>
    rw [Nat.max_eq_right small.le]
    exact fun _ => rfl
  · next large =>
    rw [Nat.max_eq_left (Nat.le_of_not_lt large)]
    exact taken

/-- A SPS that is read is cut into its parts, and these in the patched one. -/
theorem patch_layout (h : readSps sps = some parsed) :
    ∃ tags between code, tags.length = 16 ∧ ue.Takes code parsed.mnrf ∧
      (readFront.Takes (tags ++ (fixed 8 60 ++ between)) { parsed.front with level := 60 }) ∧
      avcPatchSpsDpb sps = sps.headD 0 :: packBits (tags ++ (fixed 8 60 ++
        (between ++ (patchedCode parsed.mnrf code ++ parsed.rest)))) := by
  obtain ⟨-, found, counted⟩ := readSps_eq_some h
  obtain ⟨tags, level, between, sixteen, eight, parts, reread⟩ := readFront_layout found
  obtain ⟨code, split, taken⟩ := local_ue _ _ _ counted
  refine ⟨tags, between, code, sixteen, taken, reread _ 60 fun _ => rfl, ?_⟩
  have cut : (if parsed.mnrf < 16 then (bitsOf sps.tail).take
        ((bitsOf sps.tail).length - parsed.coded.length) ++ golomb 16 ++ parsed.rest
      else bitsOf sps.tail) =
        tags ++ (level ++ (between ++ (patchedCode parsed.mnrf code ++ parsed.rest))) := by
    unfold patchedCode
    rw [parts]
    split
    · have before : tags ++ (level ++ (between ++ parsed.coded)) =
          tags ++ (level ++ between) ++ parsed.coded := by simp only [append_assoc]
      rw [before, length_append, Nat.add_sub_cancel, take_left]
      simp only [append_assoc]
    · rw [split]
  have both : (tags ++ level).length = 24 := by rw [length_append, sixteen, eight]
  rw [avcPatchSpsDpb, h]
  simp only [cut]
  rw [take_left' sixteen, ← append_assoc tags level, drop_left' both, append_assoc]

theorem readSps_patched (h : readSps sps = some parsed) :
    ∃ tags more zeros coded, tags.length = 16 ∧ zeros < 8 ∧
      bitsOf (avcPatchSpsDpb sps).tail = tags ++ (fixed 8 60 ++ more) ∧
      readSps (avcPatchSpsDpb sps) = some
        { front := { parsed.front with level := 60 }
          mnrf := max parsed.mnrf 16
          coded
          rest := parsed.rest ++ replicate zeros false } := by
  obtain ⟨tags, between, code, sixteen, taken, reread, patched⟩ := patch_layout h
  obtain ⟨zeros, few, packed⟩ := bitsOf_packBits (tags ++ (fixed 8 60 ++
    (between ++ (patchedCode parsed.mnrf code ++ parsed.rest))))
  have long := congrArg List.length packed
  have front := reread (patchedCode parsed.mnrf code ++ (parsed.rest ++ replicate zeros false))
  have counted := takes_patchedCode taken (parsed.rest ++ replicate zeros false)
  simp only [append_assoc] at front packed
  have bits := (congrArg (fun nal => bitsOf (List.tail nal)) patched).trans packed
  refine ⟨tags, _, zeros, patchedCode parsed.mnrf code ++ (parsed.rest ++ replicate zeros false),
    sixteen, few, bits, ?_⟩
  rw [length_bitsOf, length_append, length_append, length_append, sixteen, length_fixed] at long
  have guards : ¬ ((avcPatchSpsDpb sps).length < 4 ∨
      (avcPatchSpsDpb sps).headD 0 &&& 0x1f ≠ 7) := by
    rw [patched, length_cons]
    exact fun wrong => wrong.elim (by omega) (not_or.mp (readSps_eq_some h).1).2
  rw [readSps, if_neg guards, bits, front]
  change (ue _).bind _ = _
  rw [counted]
  rfl

theorem patch_large (h : readSps sps = some parsed) (large : 16 ≤ parsed.mnrf)
    (sixteen : tags.length = 16) (level : bitsOf sps.tail = tags ++ (fixed 8 60 ++ more)) :
    avcPatchSpsDpb sps = sps := by
  have both : (tags ++ fixed 8 60).length = 24 := by rw [length_append, sixteen, length_fixed]
  have same : (bitsOf sps.tail).take 16 ++ fixed 8 60 ++ (bitsOf sps.tail).drop 24 =
      bitsOf sps.tail := by
    rw [level, take_left' sixteen, ← append_assoc, drop_left' both]
  rw [avcPatchSpsDpb, h]
  simp only [if_neg (Nat.not_lt.mpr large), same, packBits_bitsOf]
  cases sps with
  | nil => cases h
  | cons header payload => rfl

/-- Reading the patched SPS gives the same elements but the level and the number of reference
frames; what cannot be read is not patched; and a patched SPS stays as it is. -/
theorem avcPatchSpsDpb_reread (sps : Bytes) :
    (∀ parsed, readSps sps = some parsed → ∃ zeros < 8, ∃ coded,
      readSps (avcPatchSpsDpb sps) = some
        { front := { parsed.front with level := 60 }
          mnrf := max parsed.mnrf 16
          coded
          rest := parsed.rest ++ replicate zeros false }) ∧
    (readSps sps = none → avcPatchSpsDpb sps = sps) ∧
    avcPatchSpsDpb (avcPatchSpsDpb sps) = avcPatchSpsDpb sps := by
  have unread (h : readSps sps = none) : avcPatchSpsDpb sps = sps := by rw [avcPatchSpsDpb, h]
  refine ⟨?_, unread, ?_⟩
  · intro parsed h
    obtain ⟨-, -, zeros, coded, -, few, -, reread⟩ := readSps_patched h
    exact ⟨zeros, few, coded, reread⟩
  · cases h : readSps sps with
    | none => rw [unread h, unread h]
    | some parsed =>
      obtain ⟨tags, more, zeros, coded, sixteen, -, level, reread⟩ := readSps_patched h
      exact patch_large reread (Nat.le_max_right parsed.mnrf 16) sixteen level

/-- Baseline profile, level 3, one reference frame, and the stop bit behind it. -/
theorem avcPatchSpsDpb_reread_baseline :
    avcPatchSpsDpb [0x67, 66, 0, 30, 0xDA, 0x80] = [0x67, 66, 0, 60, 0xD8, 0x46, 0] ∧
      avcPatchSpsDpb [0x67, 66, 0, 60, 0xD8, 0x46, 0] = [0x67, 66, 0, 60, 0xD8, 0x46, 0] ∧
      ∃ zeros < 8, ∃ coded, readSps [0x67, 66, 0, 60, 0xD8, 0x46, 0] =
        some ⟨⟨66, 0, 60, [0, 0, 2]⟩, 16, coded, bitsOf [0x80] ++ replicate zeros false⟩ := by
  have patched : avcPatchSpsDpb [0x67, 66, 0, 30, 0xDA, 0x80] =
      [0x67, 66, 0, 60, 0xD8, 0x46, 0] := by decide +kernel
  have reads : readSps [0x67, 66, 0, 30, 0xDA, 0x80] =
      some ⟨⟨66, 0, 30, [0, 0, 2]⟩, 1, fixed 11 0x280, bitsOf [0x80]⟩ := by decide +kernel
  obtain ⟨reread, -, twice⟩ := avcPatchSpsDpb_reread [0x67, 66, 0, 30, 0xDA, 0x80]
  rw [patched] at reread twice
  exact ⟨patched, twice, reread _ reads⟩

end Scshr.Media.SpsPatch
