import Mathlib.Data.Finset.Basic
import Mathlib.Data.Finset.Lattice.Lemmas
import Scshr.Lib.AssocMap
import Scshr.Lib.Receiver

/-! Sequence tracking (`track_seq` of `media/rtp_assembler.cpp`).  It sees the low 16 bits of the
sender's numbers and keeps, for every SSRC, the highest number with a rollover count, and the
numbers that were skipped and can be asked for again.  As long as a number is less than half the
circle away from the highest one, this is the receiver that sees the numbers themselves. -/
namespace Scshr.Media

open Lib List

structure SsrcSeq where
  maxSeq : UInt16
  roc : UInt32
  deriving DecidableEq, Repr

structure SeqEvent where
  ssrc : UInt32
  seq : UInt16
  lost : Nat
  late : Bool
  dup : Bool
  deriving DecidableEq, Repr

structure SeqTracker where
  seq : AssocMap UInt32 SsrcSeq
  nackPending : AssocMap UInt32 (Finset UInt16)
  receivedPkts : UInt64
  lostPkts : UInt64
  lastVideoPktNs : Int

namespace SeqTracker

def new : SeqTracker := ⟨∅, ∅, 0, 0, 0⟩

def pending (tracker : SeqTracker) (ssrc : UInt32) : Finset UInt16 :=
  (tracker.nackPending.lookup ssrc).getD ∅

/-- `nack_pending_[ssrc]` makes an empty set where there is none. -/
def editPending (tracker : SeqTracker) (ssrc : UInt32) (edit : Finset UInt16 → Finset UInt16) :
    SeqTracker :=
  { tracker with
    nackPending := tracker.nackPending.insert ssrc (edit (tracker.pending ssrc)) }

def missOne (ssrc : UInt32) (maxSeq : UInt16) (state : SeqTracker × SeqEvent) (m : Nat) :
    SeqTracker × SeqEvent :=
  ({ state.1.editPending ssrc (insert (maxSeq + UInt16.ofNat m)) with
      lostPkts := state.1.lostPkts + 1 },
    { state.2 with lost := state.2.lost + 1 })

def trackSeq (tracker : SeqTracker) (ssrc : UInt32) (seq : UInt16) (now : Int) :
    SeqTracker × SeqEvent :=
  let ev : SeqEvent := ⟨ssrc, seq, 0, false, false⟩
  let tracker :=
    { tracker with receivedPkts := tracker.receivedPkts + 1, lastVideoPktNs := now }
  match tracker.seq.lookup ssrc with
  | none => ({ tracker with seq := tracker.seq.insert ssrc ⟨seq, 0⟩ }, ev)
  | some st =>
    let diff := seq - st.maxSeq
    if diff = 0 then (tracker, { ev with dup := true })
    else if diff > 0x8000 then
      (tracker.editPending ssrc (·.erase seq), { ev with late := true })
    else
      let missedMax := min diff.toNat 32
      let missed := (List.range' 1 (missedMax - 1)).foldl (missOne ssrc st.maxSeq) (tracker, ev)
      let roc := if seq < st.maxSeq then st.roc + 1 else st.roc
      ({ missed.1 with seq := missed.1.seq.insert ssrc ⟨seq, roc⟩ }, missed.2)

end SeqTracker

/-! ## One SSRC -/

abbrev SeqView := Option SsrcSeq × Finset UInt16

def SeqTracker.view (tracker : SeqTracker) (ssrc : UInt32) : SeqView :=
  (tracker.seq.lookup ssrc, tracker.pending ssrc)

/-- The numbers behind the highest one up to the one that came, at most 31 of them. -/
def skipped (maxSeq diff : UInt16) : Finset UInt16 :=
  ((List.range' 1 (min diff.toNat 32 - 1)).map fun m => maxSeq + UInt16.ofNat m).toFinset

def SeqView.track : SeqView → UInt16 → SeqView
  | (none, pending), seq => (some ⟨seq, 0⟩, pending)
  | (some st, pending), seq =>
    if seq - st.maxSeq = 0 then (some st, pending)
    else if seq - st.maxSeq > 0x8000 then (some st, pending.erase seq)
    else (some ⟨seq, if seq < st.maxSeq then st.roc + 1 else st.roc⟩,
      pending ∪ skipped st.maxSeq (seq - st.maxSeq))

namespace SeqTracker

theorem pending_editPending (tracker : SeqTracker) (ssrc other : UInt32)
    (edit : Finset UInt16 → Finset UInt16) :
    (tracker.editPending ssrc edit).pending other =
      if other = ssrc then edit (tracker.pending ssrc) else tracker.pending other := by
  unfold pending editPending
  split
  case isTrue same => rw [same, AList.lookup_insert]; rfl
  case isFalse differs => rw [AList.lookup_insert_ne differs]

theorem seq_foldl_missOne (ssrc : UInt32) (maxSeq : UInt16) (ms : List Nat)
    (state : SeqTracker × SeqEvent) :
    (ms.foldl (missOne ssrc maxSeq) state).1.seq = state.1.seq := by
  induction ms generalizing state with
  | nil => rfl
  | cons m ms ih => exact ih (missOne ssrc maxSeq state m)

theorem pending_foldl_missOne (ssrc : UInt32) (maxSeq : UInt16) (ms : List Nat)
    (state : SeqTracker × SeqEvent) (other : UInt32) :
    (ms.foldl (missOne ssrc maxSeq) state).1.pending other =
      if other = ssrc then
        state.1.pending ssrc ∪ (ms.map fun m => maxSeq + UInt16.ofNat m).toFinset
      else state.1.pending other := by
  induction ms generalizing state with
  | nil =>
    rw [foldl_nil, map_nil, toFinset_nil, Finset.union_empty]
    split
    case isTrue same => rw [same]
    case isFalse => rfl
  | cons m ms ih =>
    have step : ∀ ssrc', (missOne ssrc maxSeq state m).1.pending ssrc' =
        if ssrc' = ssrc then insert (maxSeq + UInt16.ofNat m) (state.1.pending ssrc)
        else state.1.pending ssrc' :=
      fun ssrc' => pending_editPending state.1 ssrc ssrc' _
    rw [foldl_cons, ih, step, step, if_pos rfl, map_cons, toFinset_cons,
      Finset.insert_union, Finset.union_insert]
    split <;> rfl

theorem view_trackSeq (tracker : SeqTracker) (ssrc other : UInt32) (seq : UInt16) (now : Int) :
    (tracker.trackSeq ssrc seq now).1.view other =
      if other = ssrc then (tracker.view ssrc).track seq else tracker.view other := by
  unfold trackSeq view
  dsimp only
  cases known : tracker.seq.lookup ssrc with
  | none =>
    dsimp only [SeqView.track]
    by_cases same : other = ssrc
    · rw [if_pos same, same, AList.lookup_insert]
      rfl
    · rw [if_neg same, AList.lookup_insert_ne same]
      rfl
  | some st =>
    dsimp only [SeqView.track]
    by_cases dup : seq - st.maxSeq = 0
    · rw [if_pos dup, if_pos dup]
      by_cases same : other = ssrc
      · rw [if_pos same, same, ← known]
        rfl
      · rw [if_neg same]
        rfl
    · rw [if_neg dup, if_neg dup]
      by_cases late : seq - st.maxSeq > 0x8000
      · rw [if_pos late, if_pos late, pending_editPending]
        by_cases same : other = ssrc
        · rw [if_pos same, if_pos same, same, ← known]
          rfl
        · rw [if_neg same, if_neg same]
          rfl
      · rw [if_neg late, if_neg late, seq_foldl_missOne]
        have missed := pending_foldl_missOne ssrc st.maxSeq
          (List.range' 1 (min (seq - st.maxSeq).toNat 32 - 1))
        by_cases same : other = ssrc
        · rw [if_pos same, same, AList.lookup_insert]
          refine Prod.ext rfl ((missed _ ssrc).trans (if_pos rfl))
        · rw [if_neg same, AList.lookup_insert_ne same]
          refine Prod.ext rfl ((missed _ other).trans (if_neg same))

end SeqTracker

/-! ## Extended numbers -/

def seqOf (number : Int) : UInt16 := UInt16.ofNat (number % 65536).toNat

variable {number highest next first : Int} {st : SsrcSeq} {pending : Finset UInt16}
  {rest : List Int} {missing : Set Int}

theorem toNat_seqOf (number : Int) : ((seqOf number).toNat : Int) = number % 65536 := by
  unfold seqOf
  rw [UInt16.toNat_ofNat_of_lt']
  · omega
  · change (number % 65536).toNat < 65536
    omega

theorem seqOf_inj : seqOf one = seqOf two ↔ one % 65536 = two % 65536 := by
  rw [← UInt16.toNat_inj, ← toNat_seqOf, ← toNat_seqOf]
  exact Int.ofNat_inj.symm

theorem toNat_seqOf_sub (number highest : Int) :
    ((seqOf number - seqOf highest).toNat : Int) = (number - highest) % 65536 := by
  have here := toNat_seqOf number
  have there := toNat_seqOf highest
  rw [UInt16.toNat_sub]
  omega

theorem seqOf_add (number : Int) (m : Nat) :
    seqOf number + UInt16.ofNat m = seqOf (number + m) := by
  rw [← UInt16.toNat_inj, UInt16.toNat_add, UInt16.toNat_ofNat']
  have here := toNat_seqOf number
  have there := toNat_seqOf (number + m)
  omega

/-- Less than half the circle behind the highest number, or at most half of it ahead. -/
def Near (highest number : Int) : Prop := -0x8000 < number - highest ∧ number - highest ≤ 0x8000

def Followed (highest : Int) : List Int → Prop
  | [] => True
  | number :: rest => Near highest number ∧ Followed (max highest number) rest

theorem followed_append :
    Followed highest (numbers ++ [next]) ↔
      Followed highest numbers ∧ Near (numbers.foldl max highest) next := by
  induction numbers generalizing highest with
  | nil => exact and_comm
  | cons number numbers ih => rw [cons_append, Followed, ih, Followed, and_assoc]; rfl

/-- The kept state of an SSRC stands for the highest number so far. -/
structure Represents (first : Int) (st : SsrcSeq) (highest : Int) : Prop where
  seq : st.maxSeq = seqOf highest
  roc : (st.roc.toNat : Int) = (highest / 65536 - first / 65536) % 2 ^ 32

theorem Represents.start (first : Int) : Represents first ⟨seqOf first, 0⟩ first :=
  ⟨rfl, by simp⟩

theorem Represents.advance (represents : Represents first st highest) (ahead : highest < number)
    (near : number - highest ≤ 0x8000) :
    Represents first ⟨seqOf number, if seqOf number < st.maxSeq then st.roc + 1 else st.roc⟩
      number := by
  refine ⟨rfl, ?_⟩
  have here := toNat_seqOf number
  have there := toNat_seqOf highest
  have before := represents.roc
  rw [represents.seq]
  dsimp only
  split
  case isTrue wraps =>
    rw [UInt16.lt_iff_toNat_lt] at wraps
    rw [UInt32.toNat_add, UInt32.toNat_one]
    omega
  case isFalse stays =>
    rw [UInt16.lt_iff_toNat_lt] at stays
    omega

theorem mem_skipped (ahead : highest < number) (near : number - highest ≤ 0x8000) (n : UInt16) :
    n ∈ skipped (seqOf highest) (seqOf number - seqOf highest) ↔
      ∃ x, (highest < x ∧ x ≤ highest + 31 ∧ x < number) ∧ seqOf x = n := by
  have diff := toNat_seqOf_sub number highest
  simp only [skipped, mem_toFinset, mem_map, mem_range'_1]
  constructor
  · rintro ⟨m, range, rfl⟩
    exact ⟨highest + m, by omega, (seqOf_add highest m).symm⟩
  · rintro ⟨x, range, rfl⟩
    refine ⟨(x - highest).toNat, by omega, ?_⟩
    rw [seqOf_add]
    congr 1
    omega

theorem Represents.track (represents : Represents first st highest) (near : Near highest number)
    (pending : Finset UInt16) :
    ∃ st', Represents first st' (max highest number) ∧
      SeqView.track (some st, pending) (seqOf number) =
        (some st', if highest < number then
            pending ∪ skipped (seqOf highest) (seqOf number - seqOf highest)
          else if number = highest then pending else pending.erase (seqOf number)) := by
  obtain ⟨above, below⟩ := near
  have diff := toNat_seqOf_sub number highest
  have half : (0x8000 : UInt16).toNat = 0x8000 := rfl
  unfold SeqView.track
  dsimp only
  rw [represents.seq]
  by_cases dup : number = highest
  · have zero : seqOf number - seqOf highest = 0 := by rw [dup, UInt16.sub_self]
    rw [if_pos zero, if_neg (by omega), if_pos dup, dup, max_self]
    exact ⟨st, represents, rfl⟩
  · have apart : seqOf number - seqOf highest ≠ 0 := by
      rw [ne_eq, ← UInt16.toNat_inj]
      change ¬ (seqOf number - seqOf highest).toNat = 0
      omega
    rw [if_neg apart]
    by_cases ahead : highest < number
    · have early : ¬ seqOf number - seqOf highest > 0x8000 := by
        rw [gt_iff_lt, UInt16.lt_iff_toNat_lt, half]
        omega
      rw [if_neg early, if_pos ahead, max_eq_right ahead.le]
      exact ⟨_, represents.seq ▸ represents.advance ahead below, rfl⟩
    · have late : seqOf number - seqOf highest > 0x8000 := by
        rw [gt_iff_lt, UInt16.lt_iff_toNat_lt, half]
        omega
      rw [if_pos late, if_neg ahead, if_neg dup, max_eq_left (not_lt.mp ahead)]
      exact ⟨st, represents, rfl⟩

def Spanned (numbers : List Int) : Prop := ∀ one ∈ numbers, ∀ two ∈ numbers, one - two < 2 ^ 16

theorem missing_eq_of_seqOf (missing : Receiver.Missing 31 first rest x)
    (spanned : Spanned (first :: (rest ++ [next]))) (same : seqOf x = seqOf next) : x = next := by
  obtain ⟨jump, within, below⟩ := missing.lt_of_mem
  have above := missing.first_lt
  have last : next ∈ first :: (rest ++ [next]) := by simp
  have high := spanned jump (by simp [within]) next last
  have low := spanned next last first mem_cons_self
  rw [seqOf_inj] at same
  omega

def Stands (pending : Finset UInt16) (missing : Set Int) : Prop :=
  ∀ n, n ∈ pending ↔ ∃ x ∈ missing, seqOf x = n

theorem Stands.union (stands : Stands pending missing) (others : Stands more skips) :
    Stands (pending ∪ more) (missing ∪ skips) := by
  intro n
  simp only [Finset.mem_union, stands n, others n, Set.mem_union, or_and_right, exists_or]

theorem Stands.erase (stands : Stands pending missing)
    (distinct : ∀ x ∈ missing, seqOf x = seqOf next → x = next) :
    Stands (pending.erase (seqOf next)) (missing \ {next}) := by
  intro n
  rw [Finset.mem_erase, stands n]
  constructor
  · rintro ⟨differs, x, inside, rfl⟩
    exact ⟨x, ⟨inside, fun same => differs (congrArg seqOf same)⟩, rfl⟩
  · rintro ⟨x, ⟨inside, differs⟩, rfl⟩
    exact ⟨fun same => differs (distinct x inside same), x, inside, rfl⟩

theorem track_run (followed : Followed first rest) :
    ∃ st pending, (rest.map seqOf).foldl SeqView.track (some ⟨seqOf first, 0⟩, ∅) =
        (some st, pending) ∧
      Represents first st (rest.foldl max first) ∧
      (Spanned (first :: rest) → Stands pending (Receiver.run 31 first rest).missing) := by
  induction rest using List.reverseRecOn with
  | nil => exact ⟨_, _, rfl, .start first, fun _ n => by simp [Receiver.run, Receiver.start]⟩
  | append_singleton rest next ih =>
    obtain ⟨before, near⟩ := followed_append.mp followed
    obtain ⟨st, pending, same, represents, stands⟩ := ih before
    obtain ⟨st', represents', tracked⟩ := represents.track near pending
    rw [map_append, foldl_append, same, foldl_append]
    refine ⟨st', _, tracked, represents', fun spanned => ?_⟩
    have shorter : Spanned (first :: rest) := fun one hone two htwo =>
      spanned one (mem_append_left [next] hone) two (mem_append_left [next] htwo)
    rw [Receiver.run_append, Receiver.receive, Receiver.highest_run]
    split
    case isTrue ahead => exact (stands shorter).union (mem_skipped ahead near.2)
    case isFalse behind =>
      split
      case isTrue dup =>
        have absent : next ∉ (Receiver.run 31 first rest).missing := by
          intro missing
          exact absurd (Receiver.mem_missing_run.mp missing).lt_highest (dup ▸ lt_irrefl next)
        dsimp only
        rw [Set.sdiff_singleton_eq_self absent]
        exact stands shorter
      case isFalse =>
        refine (stands shorter).erase fun x missing => ?_
        exact missing_eq_of_seqOf (Receiver.mem_missing_run.mp missing) spanned

/-! ## Runs -/

structure SeqCall where
  ssrc : UInt32
  number : Int
  now : Int

def SeqCall.numberOf (ssrc : UInt32) (call : SeqCall) : Option Int :=
  if call.ssrc = ssrc then some call.number else none

def SeqTracker.run (tracker : SeqTracker) (calls : List SeqCall) : SeqTracker :=
  calls.foldl (fun tracker call => (tracker.trackSeq call.ssrc (seqOf call.number) call.now).1)
    tracker

theorem SeqTracker.view_run (tracker : SeqTracker) (calls : List SeqCall) (ssrc : UInt32) :
    (tracker.run calls).view ssrc =
      ((calls.filterMap (SeqCall.numberOf ssrc)).map seqOf).foldl SeqView.track
        (tracker.view ssrc) := by
  induction calls generalizing tracker with
  | nil => rfl
  | cons call calls ih =>
    rw [run, foldl_cons]
    refine (ih _).trans ?_
    rw [view_trackSeq]
    by_cases own : call.ssrc = ssrc
    · have number : SeqCall.numberOf ssrc call = some call.number := if_pos own
      rw [if_pos own.symm, filterMap_cons_some number, own]
      rfl
    · have none : SeqCall.numberOf ssrc call = none := if_neg own
      rw [if_neg (Ne.symm own), filterMap_cons_none none]

def SsrcSeq.extended (st : SsrcSeq) : Int := st.roc.toNat * 65536 + st.maxSeq.toNat

theorem Represents.extended (represents : Represents first st highest) :
    st.extended = (highest - 65536 * (first / 65536)) % 2 ^ 48 := by
  have here := toNat_seqOf highest
  have roc := represents.roc
  unfold SsrcSeq.extended
  rw [represents.seq]
  omega

theorem SeqTracker.run_first (tracker : SeqTracker) (fresh : tracker.view ssrc = (none, ∅))
    (own : calls.filterMap (SeqCall.numberOf ssrc) = first :: rest) :
    (tracker.run calls).view ssrc =
      (rest.map seqOf).foldl SeqView.track (some ⟨seqOf first, 0⟩, ∅) := by
  rw [view_run, own, fresh]
  rfl

/-- As long as the numbers of an SSRC are near its highest one, the count of rollovers and the
highest 16-bit number are the extended number from the first round on, in 48 bits; and while
the numbers stay apart, the candidates are what was skipped and did not come since. -/
theorem trackSeq_extended (tracker : SeqTracker) (ssrc : UInt32) (calls : List SeqCall)
    (first : Int) (rest : List Int) (fresh : tracker.view ssrc = (none, ∅))
    (own : calls.filterMap (SeqCall.numberOf ssrc) = first :: rest)
    (followed : Followed first rest) :
    (∃ st, (tracker.run calls).seq.lookup ssrc = some st ∧
      st.extended = (rest.foldl max first - 65536 * (first / 65536)) % 2 ^ 48) ∧
    (Spanned (first :: rest) → ∀ n, n ∈ (tracker.run calls).pending ssrc ↔
      ∃ x, Receiver.Missing 31 first rest x ∧ seqOf x = n) := by
  obtain ⟨st, pending, tracked, represents, stands⟩ := track_run followed
  obtain ⟨known, waiting⟩ := Prod.mk.inj ((tracker.run_first fresh own).trans tracked)
  refine ⟨⟨st, known, represents.extended⟩, fun spanned n => ?_⟩
  rw [waiting, stands spanned n]
  simp only [Receiver.mem_missing_run]

/-- A gap, of which one number comes late, beside another SSRC. -/
theorem trackSeq_extended_gap :
    (∃ st, (SeqTracker.new.run [⟨5, 10, 0⟩, ⟨5, 13, 0⟩, ⟨6, 65534, 0⟩, ⟨5, 12, 0⟩]).seq.lookup 5 =
      some st ∧ st.extended = 13) ∧
    11 ∈ (SeqTracker.new.run [⟨5, 10, 0⟩, ⟨5, 13, 0⟩, ⟨6, 65534, 0⟩, ⟨5, 12, 0⟩]).pending 5 := by
  have followed : Followed 10 [13, 12] := by simp [Followed, Near]
  have spanned : Spanned [10, 13, 12] := by simp [Spanned]
  obtain ⟨⟨st, known, extended⟩, pending⟩ := trackSeq_extended SeqTracker.new 5
    [⟨5, 10, 0⟩, ⟨5, 13, 0⟩, ⟨6, 65534, 0⟩, ⟨5, 12, 0⟩] 10 [13, 12] rfl rfl followed
  refine ⟨⟨st, known, extended⟩, (pending spanned 11).mpr ⟨11, ?_, rfl⟩⟩
  exact ⟨[], 13, [12], rfl, by decide, by decide, by decide, by decide⟩

/-! The rollover count has 32 bits: a sender that always goes on by half the circle comes back
to the extended number it began with. -/

-- the lists below are far too long to be unfolded
@[irreducible] def halfCircles (count : Nat) : List Int :=
  (List.range count).map fun i : Nat => 0x8000 * ((i : Int) + 1)

def halfCircleCalls (count : Nat) : List SeqCall :=
  ⟨5, 0, 0⟩ :: (halfCircles count).map fun number => ⟨5, number, 0⟩

theorem halfCircles_zero : halfCircles 0 = [] := by
  rw [halfCircles, range_zero, map_nil]

variable (count : Nat)

theorem halfCircles_succ :
    halfCircles (count + 1) = halfCircles count ++ [0x8000 * ((count : Int) + 1)] := by
  rw [halfCircles, range_succ, map_append, halfCircles]
  rfl

theorem foldl_halfCircles : (halfCircles count).foldl max 0 = 0x8000 * count := by
  induction count with
  | zero => rw [halfCircles_zero]; rfl
  | succ count ih =>
    rw [halfCircles_succ, foldl_append, ih, foldl_cons, foldl_nil]
    omega

theorem followed_halfCircles : Followed 0 (halfCircles count) := by
  induction count with
  | zero => rw [halfCircles_zero]; trivial
  | succ count ih =>
    rw [halfCircles_succ, followed_append, foldl_halfCircles]
    exact ⟨ih, by omega, by omega⟩

theorem numberOf_halfCircleCalls :
    (halfCircleCalls count).filterMap (SeqCall.numberOf 5) = 0 :: halfCircles count := by
  have begins : SeqCall.numberOf 5 ⟨5, 0, 0⟩ = some 0 := rfl
  rw [halfCircleCalls, filterMap_cons_some begins, filterMap_map]
  exact congrArg (0 :: ·) filterMap_some

theorem extended_halfCircleCalls :
    ∃ st, (SeqTracker.new.run (halfCircleCalls count)).seq.lookup 5 = some st ∧
      st.extended = 0x8000 * count % 2 ^ 48 := by
  obtain ⟨st, pending, tracked, represents, -⟩ := track_run (followed_halfCircles count)
  have view := SeqTracker.new.run_first rfl (numberOf_halfCircleCalls count)
  refine ⟨st, congrArg Prod.fst (view.trans tracked), ?_⟩
  rw [represents.extended, foldl_halfCircles]
  rfl

theorem roc_wraps :
    Followed 0 (halfCircles (2 ^ 33)) ∧
      ∃ st, (SeqTracker.new.run (halfCircleCalls (2 ^ 33))).seq.lookup 5 = some st ∧
        st.extended ≠ (halfCircles (2 ^ 33)).foldl max 0 - 65536 * (0 / 65536) := by
  obtain ⟨st, known, extended⟩ := extended_halfCircleCalls (2 ^ 33)
  refine ⟨followed_halfCircles (2 ^ 33), st, known, ?_⟩
  rw [extended, foldl_halfCircles]
  decide

end Scshr.Media
