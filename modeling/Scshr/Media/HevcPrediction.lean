import Scshr.Media.HevcBounds

/-! Predicted reference picture sets against equation (7-61) of the standard.  The code goes
through the reference set backwards and through its flags forwards. -/
namespace Scshr.Media

open Common BitReader Metered
open List hiding getElem?_eq_some_iff

/-- The syntax elements of a predicted set, and the set they refer to. -/
structure Prediction where
  ref : ShortTermRps
  sign : Nat
  absMinus1 : Nat
  flags : List (Bool × Bool)
  deriving DecidableEq

/-- The reads of `parse_st_ref_pic_set` behind the flag of a predicted set; `none` for one that
refers to a set that is not there. -/
def readPrediction (idx numInSps : Int) (sets : List ShortTermRps) :
    BitParser (Option Prediction) := do
  let deltaIdxMinus1 ← if idx = numInSps then readUe else pure 0
  let sign ← read1
  let absMinus1 ← readUe
  let refIdx := idx - (int32 deltaIdxMinus1 + 1)
  if refIdx < 0 ∨ (sets.length : Int) ≤ refIdx then pure none
  else
    let ref := sets.getD refIdx.toNat []
    let flags ← readInterFlags (ref.length + 1)
    pure (some { ref, sign, absMinus1, flags })

namespace Prediction

variable (p : Prediction)

/-- Equation (7-60). -/
def deltaRps : Int := (1 - 2 * (p.sign : Int)) * (p.absMinus1 + 1)

/-- The entry of the reference picture itself. -/
def own : ShortTermRps :=
  keptDeltas [(p.deltaRps, p.flags.getD p.ref.length (false, false))]

/-- `DeltaPocS0` and `UsedByCurrPicS0` of equation (7-61) for a reference set without positive
deltas. -/
def s0 : ShortTermRps :=
  p.own ++ keptDeltas ((p.ref.map fun rd => rd.1 + p.deltaRps).zip p.flags)

def refDelta (i : Nat) : Int := (p.ref.getD i (0, false)).1

/-- `used_by_curr_pic_flag` of the entry `i`, where `use_delta_flag` keeps it. -/
def kept (i : Nat) : Option Bool :=
  p.flags[i]?.bind fun flag => if flag.2 then some flag.1 else none

/-- An entry of the reference set with that delta is kept, with the flags of the entry `flagOf`
names. -/
def Marked (flagOf : Nat → Nat) (delta : Int) (used : Bool) : Prop :=
  ∃ i < p.ref.length, p.refDelta i = delta ∧ p.kept (flagOf i) = some used

instance (flagOf : Nat → Nat) (delta : Int) (used : Bool) :
    Decidable (p.Marked flagOf delta used) :=
  inferInstanceAs (Decidable (∃ i < p.ref.length, _))

/-- Read from the other end, the flags keep the same of the entries behind the picture. -/
def Mirrored : Prop :=
  ∀ i < p.ref.length, p.refDelta i + p.deltaRps < 0 → ∀ used,
    (p.Marked (p.ref.length - 1 - ·) (p.refDelta i) used ↔ p.Marked id (p.refDelta i) used)

instance : Decidable p.Mirrored :=
  inferInstanceAs (Decidable (∀ i < p.ref.length, _))

/-- An entry that comes from the reference set. -/
def Shifted (flagOf : Nat → Nat) (entry : Int × Bool) : Prop :=
  entry.1 < 0 ∧ p.Marked flagOf (entry.1 - p.deltaRps) entry.2

end Prediction

theorem run_bind (program : BitParser α) (next : α → BitParser β) (r : BitReader) :
    (program >>= next) r = next (program r).1 (program r).2 :=
  rfl

theorem run_pure (value : α) (r : BitReader) : (pure value : BitParser α) r = (value, r) :=
  rfl

theorem run_ite [Decidable condition] (first second : BitParser α) (r : BitReader) :
    (if condition then first else second) r = if condition then first r else second r := by
  split <;> rfl

theorem parseInterRps_prediction {idx numInSps : Int} {sets : List ShortTermRps}
    (coded : (readPrediction idx numInSps sets r).1 = some p) :
    p.flags.length = p.ref.length + 1 ∧ (parseInterRps idx numInSps sets r).1 =
      Scshr.Media.interDeltas p.ref ((1 - 2 * (p.sign : Int)) * (int32 p.absMinus1 + 1))
        p.flags := by
  have count (n : Nat) (r : BitReader) : (Scshr.Media.readInterFlags n r).1.length = n :=
    yields_readInterFlags n r
  by_cases slice : idx = numInSps
  all_goals
    simp only [readPrediction, parseInterRps, slice, ↓reduceIte, pure_bind] at coded ⊢
    simp only [run_ite, run_bind, run_pure] at coded ⊢
    split at coded
    case isTrue => cases coded
    case isFalse found =>
      obtain rfl := Option.some_inj.mp coded
      rw [if_neg found]
      dsimp only
      rw [count]
      exact ⟨rfl, rfl⟩

theorem mem_keptDeltas_zip (deltas : List Int) (p : Prediction) (entry : Int × Bool) :
    entry ∈ keptDeltas (deltas.zip p.flags) ↔
      ∃ i, deltas[i]? = some entry.1 ∧ entry.1 < 0 ∧ p.kept i = some entry.2 := by
  obtain ⟨d, used⟩ := entry
  simp only [keptDeltas, mem_filterMap, Option.ite_none_right_eq_some, Option.some_inj,
    Prediction.kept, Option.bind_eq_some_iff]
  constructor
  · rintro ⟨⟨d, flag⟩, member, ⟨negative, use⟩, eq⟩
    cases eq
    obtain ⟨i, found⟩ := mem_iff_getElem?.mp member
    obtain ⟨delta, entryFlag⟩ := getElem?_zip_eq_some.mp found
    exact ⟨i, delta, negative, flag, entryFlag, use, rfl⟩
  · rintro ⟨i, delta, negative, flag, found, use, rfl⟩
    have zipped : (deltas.zip p.flags)[i]? = some (d, flag) :=
      getElem?_zip_eq_some.mpr ⟨delta, found⟩
    exact ⟨(d, flag), mem_of_getElem? zipped, ⟨negative, use⟩, rfl⟩

namespace Prediction

variable {p : Prediction} {entry : Int × Bool}

theorem shifted_delta_iff (i : Nat) (delta : Int) :
    (p.ref.map fun rd => rd.1 + p.deltaRps)[i]? = some delta ↔
      i < p.ref.length ∧ p.refDelta i = delta - p.deltaRps := by
  rw [getElem?_map, Option.map_eq_some_iff, refDelta, getD_eq_getElem?_getD]
  by_cases inside : i < p.ref.length
  · rw [getElem?_eq_getElem inside, Option.getD_some]
    simp only [Option.some_inj, exists_eq_left', inside, true_and]
    omega
  · rw [getElem?_eq_none (by omega)]
    simp [inside]

theorem mem_s0 : entry ∈ p.s0 ↔ entry ∈ p.own ∨ p.Shifted id entry := by
  rw [s0, mem_append, mem_keptDeltas_zip]
  refine or_congr_right ⟨?_, ?_⟩
  · rintro ⟨i, found, negative, kept⟩
    obtain ⟨inside, delta⟩ := (shifted_delta_iff i entry.1).mp found
    exact ⟨negative, i, inside, delta, kept⟩
  · rintro ⟨negative, i, inside, delta, kept⟩
    exact ⟨i, (shifted_delta_iff i entry.1).mpr ⟨inside, delta⟩, negative, kept⟩

theorem own_eq (p : Prediction) :
    p.own = if p.deltaRps < 0 ∧ (p.flags.getD p.ref.length (false, false)).2 then
      [(p.deltaRps, (p.flags.getD p.ref.length (false, false)).1)] else [] :=
  keptDeltas_cons _ _ []

theorem mem_interDeltas (count : p.flags.length = p.ref.length + 1) :
    entry ∈ Scshr.Media.interDeltas p.ref p.deltaRps p.flags ↔
      entry ∈ p.own ∨ p.Shifted (p.ref.length - 1 - ·) entry := by
  have last : p.flags[p.ref.length]? = some (p.flags.getD p.ref.length (false, false)) := by
    rw [getD_eq_getElem?_getD, getElem?_eq_getElem (by omega), Option.getD_some]
  rw [interDeltas_eq count last, ← own_eq, mem_append, mem_keptDeltas_zip, or_comm,
    map_reverse]
  refine or_congr_right ⟨?_, ?_⟩
  · rintro ⟨i, found, negative, kept⟩
    obtain ⟨inside, -⟩ := getElem?_eq_some_iff.mp found
    rw [length_reverse] at inside
    rw [getElem?_reverse inside, length_map] at found
    rw [length_map] at inside
    obtain ⟨there, delta⟩ := (shifted_delta_iff _ entry.1).mp found
    have back : p.ref.length - 1 - (p.ref.length - 1 - i) = i := by omega
    refine ⟨negative, p.ref.length - 1 - i, there, delta, ?_⟩
    simp only [back, kept]
  · rintro ⟨negative, i, inside, delta, kept⟩
    refine ⟨p.ref.length - 1 - i, ?_, negative, kept⟩
    rw [getElem?_reverse (by rw [length_map]; omega), length_map,
      Nat.sub_sub_self (by omega)]
    exact (shifted_delta_iff i entry.1).mpr ⟨inside, delta⟩

/-- No entry of a set with negative deltas has the delta of the reference picture. -/
theorem notMem_own (negative : ∀ rd ∈ p.ref, rd.1 < 0) (shifted : p.Shifted flagOf entry) :
    entry ∉ p.own := by
  obtain ⟨-, i, inside, delta, -⟩ := shifted
  have below : p.refDelta i < 0 := by
    rw [refDelta, getD_eq_getElem?_getD, getElem?_eq_getElem inside]
    exact negative _ (getElem_mem inside)
  rw [own_eq]
  split
  · rw [mem_singleton]
    rintro rfl
    omega
  · exact not_mem_nil

theorem mirrored_iff (negative : ∀ rd ∈ p.ref, rd.1 < 0) :
    (∀ entry, entry ∈ p.own ∨ p.Shifted (p.ref.length - 1 - ·) entry ↔
      entry ∈ p.own ∨ p.Shifted id entry) ↔ p.Mirrored := by
  constructor
  · intro same i inside behind used
    have shifted (flagOf : Nat → Nat) : p.Shifted flagOf (p.refDelta i + p.deltaRps, used) ↔
        p.Marked flagOf (p.refDelta i) used := by
      rw [Shifted, Int.add_sub_cancel]
      exact and_iff_right behind
    have here := same (p.refDelta i + p.deltaRps, used)
    rw [← shifted, ← shifted]
    constructor
    · exact fun back => (here.mp (.inr back)).resolve_left (notMem_own negative back)
    · exact fun straight => (here.mpr (.inr straight)).resolve_left (notMem_own negative straight)
  · intro mirrored entry
    refine or_congr_right (and_congr_right fun below => ?_)
    constructor
    · rintro ⟨i, inside, delta, kept⟩
      have same := mirrored i inside (by omega) entry.2
      rw [delta] at same
      exact same.mp ⟨i, inside, delta, kept⟩
    · rintro ⟨i, inside, delta, kept⟩
      have same := mirrored i inside (by omega) entry.2
      rw [delta] at same
      exact same.mpr ⟨i, inside, delta, kept⟩

end Prediction

/-- A predicted set is that of the standard exactly if its flags say the same from both ends. -/
theorem parseStRefPicSet_s0_iff (idx numInSps : Int) (sets : List ShortTermRps) (r : BitReader)
    (p : Prediction) (later : idx ≠ 0) (inter : (read1 r).1 ≠ 0)
    (coded : (readPrediction idx numInSps sets (read1 r).2).1 = some p)
    (small : p.absMinus1 + 1 < 2 ^ 31) (negative : ∀ rd ∈ p.ref, rd.1 < 0) :
    (∀ entry, entry ∈ (parseStRefPicSet idx numInSps sets r).1 ↔ entry ∈ p.s0) ↔
      p.Mirrored := by
  have parses : parseStRefPicSet idx numInSps sets r =
      parseInterRps idx numInSps sets (read1 r).2 := by
    simp only [parseStRefPicSet, if_pos later, run_bind, if_pos inter]
  obtain ⟨count, produced⟩ := parseInterRps_prediction coded
  have delta : (1 - 2 * (p.sign : Int)) * (int32 p.absMinus1 + 1) = p.deltaRps := by
    rw [int32, if_pos (by omega), Prediction.deltaRps]
  rw [parses, produced, delta, ← Prediction.mirrored_iff negative]
  simp only [Prediction.mem_interDeltas count, Prediction.mem_s0]

theorem parseStRefPicSet_s0_palindrome :
    (-2, true) ∈ (parseStRefPicSet 1 2 [[(-1, true), (-2, true)]] ⟨[0xF8], 0⟩).1 :=
  ((parseStRefPicSet_s0_iff 1 2 _ _
    ⟨[(-1, true), (-2, true)], 1, 0, [(true, true), (true, true), (false, false)]⟩ (by decide)
    (by decide) (by decide +kernel) (by decide) (by decide)).mpr
    (by decide +kernel) (-2, true)).mpr (by decide +kernel)

/-- The flags of the nearer of two pictures go to the farther one. -/
theorem parseStRefPicSet_backwards :
    (parseStRefPicSet 1 2 [[(-1, true), (-2, true)]] ⟨[0xF2], 0⟩).1 = [(-3, true), (-1, true)] ∧
      (readPrediction 1 2 [[(-1, true), (-2, true)]] ⟨[0xF2], 1⟩).1.map Prediction.s0 =
        some [(-1, true), (-2, true)] := by
  decide +kernel

end Scshr.Media
