import Scshr.Media.HevcRps

/-! The POCs that `check_slice` derives.  From an IDR slice on they are the true ones, as long as
each picture is at most half the range of the low parts ahead of the one before it, and less than
half of it behind.  Where the POCs fit in 32 bits, the parts that the tracker keeps do too
(`TracksPoc.msb_int32`). -/
namespace Scshr.Media

open Common

def HevcSpsState.halfPocLsb (sps : HevcSpsState) : Int :=
  2 ^ (sps.log2MaxPicOrderCntLsb - 1).toNat

theorem maxPocLsb_eq_two_mul {sps : HevcSpsState} (positive : 0 < sps.log2MaxPicOrderCntLsb) :
    sps.maxPocLsb = 2 * sps.halfPocLsb := by
  have exponent : sps.log2MaxPicOrderCntLsb.toNat =
      (sps.log2MaxPicOrderCntLsb - 1).toNat + 1 := by omega
  rw [HevcSpsState.maxPocLsb, HevcSpsState.halfPocLsb, exponent, pow_succ, Int.mul_comm]

section

variable (sps : HevcSpsState)

/-- The slice has a header with the low part of its POC, which is a step of at most half the
range ahead or less than half behind; an IDR slice has POC 0. -/
def Slice.SteppedAfter (prev : Int) (slice : Slice) : Prop :=
  ∃ res, sliceRps sps slice.nal = some res ∧
    if isIdrNal slice.nal then slice.poc = 0
    else (res.pocLsb : Int) = slice.poc % sps.maxPocLsb ∧
      -sps.halfPocLsb < slice.poc - prev ∧ slice.poc - prev ≤ sps.halfPocLsb

def Stepped : Int → List Slice → Prop
  | _, [] => True
  | prev, slice :: rest => slice.SteppedAfter sps prev ∧ Stepped slice.poc rest

end

namespace HevcRpsTracker

/-- The POCs derived from some slices; behind each one its picture may have been committed. -/
def derivedPocs (tracker : HevcRpsTracker) : List (Slice × Bool) → List (Option Int)
  | [] => []
  | (slice, committed) :: rest =>
    let checked := (tracker.checkSlice slice.nal).2
    checked.lastCheckedPoc ::
      (if committed then checked.commitDecoded else checked).derivedPocs rest

structure TracksPoc (tracker : HevcRpsTracker) (sps : HevcSpsState) (poc : Int) : Prop where
  sps_eq : tracker.sps = sps
  aligned : sps.maxPocLsb ∣ tracker.prevPocMsb
  low : 0 ≤ tracker.prevPocLsb
  high : tracker.prevPocLsb < sps.maxPocLsb
  sum : tracker.prevPocMsb + tracker.prevPocLsb = poc

theorem TracksPoc.commitDecoded {tracker : HevcRpsTracker} {sps : HevcSpsState} {poc : Int}
    (tracks : tracker.TracksPoc sps poc) : tracker.commitDecoded.TracksPoc sps poc := by
  unfold HevcRpsTracker.commitDecoded
  split
  · exact tracks
  · exact ⟨tracks.sps_eq, tracks.aligned, tracks.low, tracks.high, tracks.sum⟩

/-- The high part is rounded down to a multiple of the range, as the least POC is. -/
theorem TracksPoc.msb_int32 {tracker : HevcRpsTracker} {sps : HevcSpsState} {poc : Int}
    (tracks : tracker.TracksPoc sps poc) (short : sps.log2MaxPicOrderCntLsb ≤ 31)
    (least : -2 ^ 31 ≤ poc) (greatest : poc < 2 ^ 31) :
    -2 ^ 31 ≤ tracker.prevPocMsb ∧ tracker.prevPocMsb < 2 ^ 31 := by
  obtain ⟨-, aligned, low, high, sum⟩ := tracks
  refine ⟨?_, by omega⟩
  have bound : sps.maxPocLsb ∣ 2 ^ 31 := pow_dvd_pow 2 (by omega)
  have above : 0 < tracker.prevPocMsb + 2 ^ 31 + sps.maxPocLsb := by omega
  obtain ⟨count, total⟩ := Int.dvd_add aligned bound
  have positive := maxPocLsb_pos sps
  have product : 0 < sps.maxPocLsb * (count + 1) := by
    rw [Int.mul_add, Int.mul_one, ← total]
    exact above
  have counted : 0 ≤ count :=
    Int.lt_add_one_iff.mp (Int.pos_of_mul_pos_right product positive)
  have nonneg := Int.mul_nonneg positive.le counted
  omega

section

variable {tracker : HevcRpsTracker} {sps : HevcSpsState} {prev : Int} {slice : Slice}
  {res : SliceRps}

theorem checkSlice_of_read (same : tracker.sps = sps) (read : sliceRps sps slice.nal = some res) :
    tracker.checkSlice slice.nal = tracker.checkParsed slice.nal res := by
  unfold checkSlice
  rw [same, read]

theorem tracksPoc_idr (same : tracker.sps = sps) (idr : isIdrNal slice.nal = true)
    (stepped : slice.SteppedAfter sps prev) :
    (tracker.checkSlice slice.nal).2.TracksPoc sps slice.poc ∧
      (tracker.checkSlice slice.nal).2.lastCheckedPoc = some slice.poc := by
  obtain ⟨res, read, poc⟩ := stepped
  rw [if_pos idr] at poc
  have parts : tracker.advance slice.nal res = (0, 0) := if_pos idr
  rw [checkSlice_of_read same read, checkParsed, parts, poc]
  exact ⟨⟨same, Int.dvd_zero _, Int.le_refl 0, maxPocLsb_pos sps, rfl⟩, rfl⟩

theorem TracksPoc.checkSlice (tracks : tracker.TracksPoc sps prev)
    (positive : 0 < sps.log2MaxPicOrderCntLsb) (stepped : slice.SteppedAfter sps prev) :
    (tracker.checkSlice slice.nal).2.TracksPoc sps slice.poc ∧
      (tracker.checkSlice slice.nal).2.lastCheckedPoc = some slice.poc := by
  by_cases idr : isIdrNal slice.nal = true
  · exact tracksPoc_idr tracks.sps_eq idr stepped
  · obtain ⟨res, read, poc⟩ := stepped
    rw [if_neg idr] at poc
    obtain ⟨lsb, behind, ahead⟩ := poc
    have range := maxPocLsb_eq_two_mul positive
    have parts : tracker.advance slice.nal res =
        (pocMsb sps.maxPocLsb tracker.prevPocMsb tracker.prevPocLsb (slice.poc % sps.maxPocLsb),
          slice.poc % sps.maxPocLsb) := by
      rw [advance, if_neg idr, tracks.sps_eq, lsb]
    have sum : pocMsb sps.maxPocLsb tracker.prevPocMsb tracker.prevPocLsb
        (slice.poc % sps.maxPocLsb) + slice.poc % sps.maxPocLsb = slice.poc :=
      pocMsb_eq_of_step tracks.aligned tracks.low tracks.high
        (by rw [tracks.sum, ← HevcSpsState.maxPocLsb]; omega)
        (by rw [tracks.sum, ← HevcSpsState.maxPocLsb]; omega)
    rw [checkSlice_of_read tracks.sps_eq read, checkParsed, parts]
    exact ⟨⟨tracks.sps_eq, pocMsb_aligned _ _ tracks.aligned,
      Int.emod_nonneg _ (maxPocLsb_pos sps).ne', Int.emod_lt_of_pos _ (maxPocLsb_pos sps), sum⟩,
      congrArg some sum⟩

theorem TracksPoc.derivedPocs {slices : List (Slice × Bool)} {tracker : HevcRpsTracker} {prev : Int}
    (tracks : tracker.TracksPoc sps prev) (positive : 0 < sps.log2MaxPicOrderCntLsb)
    (stepped : Stepped sps prev (slices.map Prod.fst)) :
    tracker.derivedPocs slices = slices.map fun item => some item.1.poc := by
  induction slices generalizing tracker prev with
  | nil => rfl
  | cons item rest ih =>
    obtain ⟨slice, committed⟩ := item
    obtain ⟨held, derived⟩ := tracks.checkSlice positive stepped.1
    rw [HevcRpsTracker.derivedPocs, derived, List.map_cons]
    congr 1
    cases committed with
    | false => exact ih held stepped.2
    | true => exact ih held.commitDecoded stepped.2

end

end HevcRpsTracker

/-- From an IDR slice on, `check_slice` derives the true POCs. -/
theorem derivedPocs_eq {sps : HevcSpsState} (positive : 0 < sps.log2MaxPicOrderCntLsb)
    (tracker : HevcRpsTracker) (same : tracker.sps = sps) (first : Slice) (committed : Bool)
    (rest : List (Slice × Bool)) (idr : isIdrNal first.nal = true)
    (stepped : Stepped sps 0 (first :: rest.map Prod.fst)) :
    tracker.derivedPocs ((first, committed) :: rest) =
      ((first, committed) :: rest).map fun item => some item.1.poc := by
  obtain ⟨held, derived⟩ := HevcRpsTracker.tracksPoc_idr same idr stepped.1
  rw [HevcRpsTracker.derivedPocs, derived, List.map_cons]
  congr 1
  cases committed with
  | false => exact held.derivedPocs positive stepped.2
  | true => exact held.commitDecoded.derivedPocs positive stepped.2

/-- A step of half the range ahead, and then one of a little less behind. -/
theorem derivedPocs_eq_half :
    HevcRpsTracker.derivedPocs { sps := plainSps } [(idrSlice, true),
      (⟨[0x02, 0x01, 0xd4, 0x01, 0x70], 128⟩, true), (nextSlice 1, false)] =
        [some 0, some 128, some 1] := by
  have other (poc : Fin 4) : ¬ isIdrNal (nextSlice poc).nal = true := by
    change ¬ hevcIsIdr (hevcNalType 0x02) = true
    decide
  refine derivedPocs_eq (by decide) _ rfl idrSlice true _ (by decide)
    ⟨⟨_, sliceRps_idrSlice, rfl⟩, ⟨⟨128, [(-1, true)], 0⟩, by decide +kernel, ?_⟩,
      ⟨_, sliceRps_nextSlice 1, ?_⟩, trivial⟩
  · rw [if_neg (by decide)]
    decide
  · rw [if_neg (other 1)]
    decide

end Scshr.Media
