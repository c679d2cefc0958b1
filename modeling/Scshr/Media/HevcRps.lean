import Mathlib.Data.Finset.Sort
import Scshr.Media.HevcSlice

/-! The reference picture tracker (`HevcRpsTracker`).  Its set of seen pictures lives on over
an IDR picture, and when it has grown it gives up its smallest members. -/
namespace Scshr.Media

open Common List

structure HevcRpsTracker where
  sps : HevcSpsState := {}
  seenPocs : Finset Int := ∅
  prevPocMsb : Int := 0
  prevPocLsb : Int := 0
  lastCheckedPoc : Option Int := none
  checks : Nat := 0
  missingRefEvents : Nat := 0
  ltrRefEvents : Nat := 0
  farRefEvents : Nat := 0
  maxRefDistance : Nat := 0
  deriving DecidableEq

/-- The most significant part of a POC that follows `msb + lsb` in a sequence whose least
significant parts have the range `range`. -/
def pocMsb (range msb prevLsb lsb : Int) : Int :=
  if lsb < prevLsb ∧ range / 2 ≤ prevLsb - lsb then msb + range
  else if prevLsb < lsb ∧ range / 2 < lsb - prevLsb then msb - range
  else msb

def usedRefs (poc : Int) (deltas : ShortTermRps) : Finset Int :=
  ((deltas.filter (·.2)).map fun delta => poc + delta.1).toFinset

def farthestRef (deltas : ShortTermRps) : Nat :=
  (deltas.filter (·.2)).foldl (fun far delta => max far delta.1.natAbs) 0

def HevcSpsState.maxPocLsb (sps : HevcSpsState) : Int := 2 ^ sps.log2MaxPicOrderCntLsb.toNat

def isIdrNal (nal : Bytes) : Bool := hevcIsIdr (hevcNalType (nal.getD 0 0))

namespace HevcRpsTracker

def reset (tracker : HevcRpsTracker) : HevcRpsTracker :=
  { tracker with seenPocs := ∅, prevPocMsb := 0, prevPocLsb := 0, lastCheckedPoc := none }

def feedSps (tracker : HevcRpsTracker) (spsPayload : Bytes) : HevcRpsTracker :=
  { tracker with sps := (hevcParseSps.run ⟨removeEmulationPrevention spsPayload, 0⟩).1 }

/-- `prev_poc_msb_` and `prev_poc_lsb_` after the slice; its POC is their sum. -/
def advance (tracker : HevcRpsTracker) (nal : Bytes) (res : SliceRps) : Int × Int :=
  if isIdrNal nal then (0, 0)
  else
    (pocMsb tracker.sps.maxPocLsb tracker.prevPocMsb tracker.prevPocLsb res.pocLsb, res.pocLsb)

def checkParsed (tracker : HevcRpsTracker) (nal : Bytes) (res : SliceRps) :
    Finset Int × HevcRpsTracker :=
  let (msb, lsb) := tracker.advance nal res
  let poc := msb + lsb
  let missing := (usedRefs poc res.deltas).filter (· ∉ tracker.seenPocs)
  let far := farthestRef res.deltas
  (missing, { tracker with
    prevPocMsb := msb
    prevPocLsb := lsb
    lastCheckedPoc := some poc
    checks := tracker.checks + 1
    missingRefEvents := tracker.missingRefEvents + if missing = ∅ then 0 else 1
    ltrRefEvents := tracker.ltrRefEvents + if 0 < res.numLongTerm then 1 else 0
    farRefEvents := tracker.farRefEvents + if 16 ≤ far then 1 else 0
    maxRefDistance := max tracker.maxRefDistance far })

def checkSlice (tracker : HevcRpsTracker) (nal : Bytes) : Finset Int × HevcRpsTracker :=
  match sliceRps tracker.sps nal with
  | none => (∅, { tracker with lastCheckedPoc := none })
  | some res => tracker.checkParsed nal res

/-- The bound on the set: beyond 8192 members the 4096 smallest go. -/
def prune (seen : Finset Int) : Finset Int :=
  if 8192 < seen.card then ((seen.sort (· ≤ ·)).drop 4096).toFinset else seen

def commitDecoded (tracker : HevcRpsTracker) : HevcRpsTracker :=
  match tracker.lastCheckedPoc with
  | none => tracker
  | some poc => { tracker with
      seenPocs := prune (insert poc tracker.seenPocs), lastCheckedPoc := none }

def feed (tracker : HevcRpsTracker) (nal : Bytes) : Finset Int × HevcRpsTracker :=
  ((tracker.checkSlice nal).1, (tracker.checkSlice nal).2.commitDecoded)

def run (tracker : HevcRpsTracker) (nals : List Bytes) : HevcRpsTracker :=
  nals.foldl (fun tracker nal => (tracker.feed nal).2) tracker

end HevcRpsTracker

structure Slice where
  nal : Bytes
  poc : Int
  deriving DecidableEq

def pocs (slices : List Slice) : Finset Int := (slices.map Slice.poc).toFinset

def sinceIdr (slices : List Slice) : List Slice :=
  slices.foldl (fun since slice => if isIdrNal slice.nal then [slice] else since ++ [slice]) []

section

variable (sps : HevcSpsState)

def Slice.refs (slice : Slice) : Finset Int :=
  match sliceRps sps slice.nal with
  | none => ∅
  | some res => usedRefs slice.poc res.deltas

/-- The slice is read, an IDR slice has POC 0, and any other codes the low part of a POC less
than half the range away from the one before. -/
def Slice.CodedAfter (prev : Int) (slice : Slice) : Prop :=
  ∃ res, sliceRps sps slice.nal = some res ∧
    if isIdrNal slice.nal then slice.poc = 0
    else (res.pocLsb : Int) = slice.poc % sps.maxPocLsb ∧
      2 * (slice.poc - prev).natAbs < sps.maxPocLsb

def Coded : Int → List Slice → Prop
  | _, [] => True
  | prev, slice :: rest => slice.CodedAfter sps prev ∧ Coded slice.poc rest

end

variable {range msb lsb poc : Int} {k : Nat}

theorem emod_of_near (low : -range ≤ x) (high : x < 2 * range) :
    x % range = if x < 0 then x + range else if x < range then x else x - range := by
  split
  next negative =>
    rw [← Int.add_emod_right]
    exact Int.emod_eq_of_lt (by omega) (by omega)
  next =>
    split
    next inside => exact Int.emod_eq_of_lt (by omega) inside
    next =>
      rw [← Int.sub_emod_right]
      exact Int.emod_eq_of_lt (by omega) (by omega)

theorem pocMsb_eq_of_step (aligned : (2 : Int) ^ k ∣ msb) (low : 0 ≤ lsb) (high : lsb < 2 ^ k)
    (behind : -(2 : Int) ^ k < 2 * (poc - (msb + lsb)))
    (ahead : 2 * (poc - (msb + lsb)) ≤ (2 : Int) ^ k) :
    pocMsb (2 ^ k) msb lsb (poc % 2 ^ k) + poc % 2 ^ k = poc := by
  have half : (2 : Int) ^ k = 1 ∨ (2 : Int) ^ k = 2 * (2 ^ k / 2) := by
    cases k with
    | zero => exact .inl rfl
    | succ k =>
      rw [pow_succ]
      omega
  have rest : poc % 2 ^ k = (poc - msb) % 2 ^ k := by
    obtain ⟨q, rfl⟩ := aligned
    rw [Int.sub_mul_emod_self_left]
  generalize (2 : Int) ^ k = range at *
  rw [rest, emod_of_near (by omega) (by omega)]
  unfold pocMsb
  split_ifs <;> omega

theorem pocMsb_eq (aligned : (2 : Int) ^ k ∣ msb) (low : 0 ≤ lsb) (high : lsb < 2 ^ k)
    (near : 2 * (poc - (msb + lsb)).natAbs < (2 : Int) ^ k) :
    pocMsb (2 ^ k) msb lsb (poc % 2 ^ k) + poc % 2 ^ k = poc :=
  pocMsb_eq_of_step aligned low high (by omega) (by omega)

/-- The tracker has seen the pictures of `front`, the last of them with POC `prev`, and none
of them has been given up. -/
structure HevcRpsTracker.Follows (tracker : HevcRpsTracker) (sps : HevcSpsState)
    (front : List Slice) (prev : Int) : Prop where
  sps_eq : tracker.sps = sps
  seen : tracker.seenPocs = pocs front
  aligned : sps.maxPocLsb ∣ tracker.prevPocMsb
  low : 0 ≤ tracker.prevPocLsb
  high : tracker.prevPocLsb < sps.maxPocLsb
  prev_eq : tracker.prevPocMsb + tracker.prevPocLsb = prev

theorem maxPocLsb_pos (sps : HevcSpsState) : 0 < sps.maxPocLsb := by
  unfold HevcSpsState.maxPocLsb
  exact Int.pow_pos (by decide)

theorem follows_start (sps : HevcSpsState) :
    HevcRpsTracker.Follows { sps := sps } sps [] 0 where
  sps_eq := rfl
  seen := rfl
  aligned := Int.dvd_zero _
  low := Int.le_refl 0
  high := maxPocLsb_pos sps
  prev_eq := rfl

theorem pocs_append (front : List Slice) (slice : Slice) :
    pocs (front ++ [slice]) = insert slice.poc (pocs front) := by
  ext poc
  simp [pocs]

theorem pocs_subset_append (front rest : List Slice) : pocs front ⊆ pocs (front ++ rest) := by
  intro poc mem
  simp only [pocs, map_append, toFinset_append, Finset.mem_union]
  exact .inl mem

theorem pocMsb_aligned (prevLsb lsb : Int) (aligned : range ∣ msb) :
    range ∣ pocMsb range msb prevLsb lsb := by
  unfold pocMsb
  split
  · exact Int.dvd_add aligned (Int.dvd_refl range)
  · split
    · exact Int.dvd_sub aligned (Int.dvd_refl range)
    · exact aligned

namespace HevcRpsTracker.Follows

variable {tracker : HevcRpsTracker} {sps : HevcSpsState} {front : List Slice} {prev : Int}
  {slice : Slice} {res : SliceRps}

theorem advance_eq (follows : tracker.Follows sps front prev)
    (coded : slice.CodedAfter sps prev) (read : sliceRps sps slice.nal = some res) :
    (tracker.advance slice.nal res).1 + (tracker.advance slice.nal res).2 = slice.poc := by
  obtain ⟨res', read', poc⟩ := coded
  obtain rfl : res' = res := Option.some_inj.mp (read'.symm.trans read)
  unfold advance
  by_cases idr : isIdrNal slice.nal = true
  · rw [if_pos idr] at poc ⊢
    exact poc.symm
  · rw [if_neg idr] at poc ⊢
    obtain ⟨lsb, near⟩ := poc
    rw [follows.sps_eq]
    dsimp only
    rw [lsb]
    exact pocMsb_eq follows.aligned follows.low follows.high (follows.prev_eq ▸ near)

theorem advance_bounds (follows : tracker.Follows sps front prev)
    (coded : slice.CodedAfter sps prev) (read : sliceRps sps slice.nal = some res) :
    sps.maxPocLsb ∣ (tracker.advance slice.nal res).1 ∧
      0 ≤ (tracker.advance slice.nal res).2 ∧
      (tracker.advance slice.nal res).2 < sps.maxPocLsb := by
  have range := maxPocLsb_pos sps
  obtain ⟨res', read', poc⟩ := coded
  obtain rfl : res' = res := Option.some_inj.mp (read'.symm.trans read)
  unfold advance
  by_cases idr : isIdrNal slice.nal = true
  · rw [if_pos idr]
    exact ⟨Int.dvd_zero _, Int.le_refl 0, range⟩
  · rw [if_neg idr] at poc ⊢
    rw [follows.sps_eq]
    dsimp only
    refine ⟨pocMsb_aligned _ _ follows.aligned, Int.natCast_nonneg _, ?_⟩
    rw [poc.1]
    exact Int.emod_lt_of_pos _ range

theorem checkSlice_eq (follows : tracker.Follows sps front prev)
    (read : sliceRps sps slice.nal = some res) :
    tracker.checkSlice slice.nal = tracker.checkParsed slice.nal res := by
  unfold checkSlice
  rw [follows.sps_eq, read]

theorem missing_eq (follows : tracker.Follows sps front prev)
    (coded : slice.CodedAfter sps prev) :
    (tracker.checkSlice slice.nal).1 = (slice.refs sps).filter (· ∉ pocs front) := by
  obtain ⟨res, read, -⟩ := id coded
  have poc := follows.advance_eq coded read
  rw [follows.checkSlice_eq read]
  unfold checkParsed Slice.refs
  dsimp only
  rw [poc, read, follows.seen]

theorem seenPocs_commitDecoded (tracker : HevcRpsTracker) (nal : Bytes) (res : SliceRps) :
    (tracker.checkParsed nal res).2.commitDecoded.seenPocs =
      prune (insert ((tracker.advance nal res).1 + (tracker.advance nal res).2)
        tracker.seenPocs) :=
  rfl

theorem prune_of_few {seen : Finset Int} (few : seen.card ≤ 8192) : prune seen = seen :=
  if_neg (Nat.not_lt.mpr few)

theorem feed (follows : tracker.Follows sps front prev) (coded : slice.CodedAfter sps prev)
    (few : (pocs (front ++ [slice])).card ≤ 8192) :
    (tracker.feed slice.nal).2.Follows sps (front ++ [slice]) slice.poc := by
  obtain ⟨res, read, -⟩ := id coded
  have poc := follows.advance_eq coded read
  have after : (tracker.feed slice.nal).2 =
      (tracker.checkParsed slice.nal res).2.commitDecoded := by
    unfold HevcRpsTracker.feed
    rw [follows.checkSlice_eq read]
  have bounds := follows.advance_bounds coded read
  rw [after]
  exact
    { sps_eq := follows.sps_eq
      seen := by
        rw [seenPocs_commitDecoded, poc, follows.seen, ← pocs_append, prune_of_few few]
      aligned := bounds.1
      low := bounds.2.1
      high := bounds.2.2
      prev_eq := poc }

theorem run (rest more : List Slice) (follows : tracker.Follows sps front prev)
    (coded : Coded sps prev (rest ++ more)) (few : (pocs (front ++ rest)).card ≤ 8192) :
    ∃ last, (tracker.run (rest.map Slice.nal)).Follows sps (front ++ rest) last ∧
      Coded sps last more := by
  induction rest generalizing tracker front prev with
  | nil =>
    rw [append_nil]
    exact ⟨prev, follows, coded⟩
  | cons next rest ih =>
    have split : front ++ next :: rest = front ++ [next] ++ rest := by simp
    have fewer : (pocs (front ++ [next])).card ≤ 8192 := by
      refine (Finset.card_le_card ?_).trans few
      rw [split]
      exact pocs_subset_append _ _
    rw [split] at few ⊢
    exact ih (follows.feed coded.1 fewer) coded.2 few

end HevcRpsTracker.Follows

theorem checkSlice_run (front : List Slice) (slice : Slice) (coded : Coded sps 0 (front ++ [slice]))
    (few : (pocs front).card ≤ 8192) :
    ((HevcRpsTracker.run { sps := sps } (front.map Slice.nal)).checkSlice slice.nal).1 =
      (slice.refs sps).filter (· ∉ pocs front) := by
  obtain ⟨last, follows, rest⟩ := (follows_start sps).run front [slice] coded few
  exact follows.missing_eq rest.1

theorem mem_of_mem_sinceIdr (slices : List Slice) :
    ∀ slice ∈ sinceIdr slices, slice ∈ slices := by
  induction slices using List.reverseRecOn with
  | nil => exact fun _ mem => mem
  | append_singleton slices last ih =>
    intro slice mem
    unfold sinceIdr at mem
    rw [foldl_append, foldl_cons, foldl_nil] at mem
    split at mem
    · exact mem_append_right slices mem
    · rcases mem_append.mp mem with before | here
      · exact mem_append_left _ (ih slice before)
      · exact mem_append_right slices here

theorem pocs_sinceIdr_subset (slices : List Slice) : pocs (sinceIdr slices) ⊆ pocs slices := by
  intro poc mem
  simp only [pocs, mem_toFinset, mem_map] at mem ⊢
  obtain ⟨slice, inside, same⟩ := mem
  exact ⟨slice, mem_of_mem_sinceIdr slices slice inside, same⟩

theorem filter_notMem_eq_iff {refs small large : Finset Int} (subset : small ⊆ large) :
    refs.filter (· ∉ large) = refs.filter (· ∉ small) ↔
      ∀ poc ∈ refs, poc ∈ large → poc ∈ small := by
  rw [Finset.filter_inj']
  constructor
  · intro same poc mem inside
    by_contra outside
    exact (same mem).mpr outside inside
  · intro stale poc mem
    exact ⟨fun outside inside => outside (subset inside),
      fun outside inside => outside (stale poc mem inside)⟩

/-- Detection is exact, as long as at most 8192 different POCs have been committed, for the
slices that refer to no picture from before the last IDR slice. -/
theorem missing_references_exact_iff (sps : HevcSpsState) (front : List Slice) (slice : Slice)
    (coded : Coded sps 0 (front ++ [slice])) (few : (pocs front).card ≤ 8192) :
    ((HevcRpsTracker.run { sps := sps } (front.map Slice.nal)).checkSlice slice.nal).1 =
        (slice.refs sps).filter (· ∉ pocs (sinceIdr front)) ↔
      ∀ poc ∈ slice.refs sps, poc ∈ pocs front → poc ∈ pocs (sinceIdr front) := by
  rw [checkSlice_run front slice coded few]
  exact filter_notMem_eq_iff (pocs_sinceIdr_subset front)

def plainSps : HevcSpsState := { parsed := true }

def idrSlice : Slice := ⟨[0x26, 0x01, 0xac], 0⟩

def nextSlice (poc : Fin 4) : Slice := ⟨[0x02, 0x01, 0xd0, UInt8.ofNat (8 * poc + 1), 0x70], poc⟩

theorem sliceRps_idrSlice : sliceRps plainSps idrSlice.nal = some ⟨0, [], 0⟩ := by
  decide

theorem sliceRps_nextSlice (poc : Fin 4) :
    sliceRps plainSps (nextSlice poc).nal = some ⟨poc, [(-1, true)], 0⟩ := by
  revert poc
  decide +kernel

theorem coded_idrSlice (prev : Int) : idrSlice.CodedAfter plainSps prev :=
  ⟨_, sliceRps_idrSlice, rfl⟩

theorem coded_nextSlice {prev : Int} (poc : Fin 4) (near : (poc - prev).natAbs < 128) :
    (nextSlice poc).CodedAfter plainSps prev := by
  have other : ¬ isIdrNal (nextSlice poc).nal = true := by
    show ¬ hevcIsIdr (hevcNalType 0x02) = true
    decide
  refine ⟨_, sliceRps_nextSlice poc, ?_⟩
  rw [if_neg other]
  show ((poc : Nat) : Int) = (poc : Nat) % 256 ∧ 2 * ((poc - prev).natAbs : Int) < 256
  omega

theorem refs_nextSlice (poc : Fin 4) : (nextSlice poc).refs plainSps = {(poc : Int) - 1} := by
  unfold Slice.refs
  rw [sliceRps_nextSlice]
  rfl

/-- An IDR slice and two that follow it. -/
theorem missing_references_exact_plain :
    let front := [idrSlice, nextSlice 1]
    (pocs front).card = 2 ∧
      ((HevcRpsTracker.run { sps := plainSps } (front.map Slice.nal)).checkSlice
        (nextSlice 2).nal).1 =
          ((nextSlice 2).refs plainSps).filter (· ∉ pocs (sinceIdr front)) := by
  have coded : Coded plainSps 0 ([idrSlice, nextSlice 1] ++ [nextSlice 2]) :=
    ⟨coded_idrSlice 0, coded_nextSlice 1 (by decide), coded_nextSlice 2 (by decide), trivial⟩
  refine ⟨by decide, (missing_references_exact_iff plainSps [idrSlice, nextSlice 1] (nextSlice 2)
    coded (by decide)).mpr ?_⟩
  rw [refs_nextSlice]
  decide

/-- Behind a second IDR slice, a slice with POC 3 refers to POC 2, which was only there
before it: nothing is reported. -/
theorem stale_reference_not_reported :
    let front := [idrSlice, nextSlice 1, nextSlice 2, idrSlice]
    (nextSlice 3).refs plainSps = {2} ∧ pocs (sinceIdr front) = {0} ∧
      ((HevcRpsTracker.run { sps := plainSps } (front.map Slice.nal)).checkSlice
        (nextSlice 3).nal).1 = ∅ := by
  intro front
  have coded : Coded plainSps 0 (front ++ [nextSlice 3]) :=
    ⟨coded_idrSlice 0, coded_nextSlice 1 (by decide), coded_nextSlice 2 (by decide),
      coded_idrSlice 2, coded_nextSlice 3 (by decide), trivial⟩
  refine ⟨refs_nextSlice 3, by decide, ?_⟩
  rw [checkSlice_run front (nextSlice 3) coded (by decide), refs_nextSlice]
  decide

end Scshr.Media
