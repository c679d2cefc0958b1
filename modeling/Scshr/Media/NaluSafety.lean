import Mathlib.Data.List.Induction
import Scshr.Media.Nalu

/-! Which payload lists the reassembly loops handle safely.  The buffer and the
range list are shared with the open fragmentation unit, so a complete unit that
arrives inside an open one is recorded first and then either overlapped by the
closing fragment or cut off by the final truncation. -/
namespace Scshr.Media

open Common List

def StartCodeAt (out : Bytes) (off : Nat) : Prop :=
  4 ≤ off ∧ off ≤ out.length ∧ (out.drop (off - 4)).take 4 = startCode

variable {out : Bytes} {off : Nat} {ranges : List NalRange} {state : NalState}
  {actions inside : List NalAction}

theorem StartCodeAt.append (h : StartCodeAt out off) (extra : Bytes) :
    StartCodeAt (out ++ extra) off := by
  obtain ⟨hfour, hle, hcode⟩ := h
  refine ⟨hfour, by simp only [length_append]; omega, ?_⟩
  rw [drop_append_of_le_length (by omega), take_append_of_le_length, hcode]
  simp only [length_drop]
  omega

theorem startCodeAt_push (out unit : Bytes) :
    StartCodeAt (out ++ startCode ++ unit) (out ++ startCode).length := by
  apply StartCodeAt.append
  refine ⟨by simp [startCode], le_refl _, ?_⟩
  simp [startCode]

theorem StartCodeAt.truncate (h : StartCodeAt out off) (hoff : off ≤ size) :
    StartCodeAt (out.take size) off := by
  obtain ⟨hfour, hle, hcode⟩ := h
  refine ⟨hfour, by simp only [length_take]; omega, ?_⟩
  rw [drop_take, take_take, min_eq_left (by omega), hcode]

/-- What the callers rely on when they dereference the ranges unchecked. -/
structure RangesSafe (out : Bytes) (ranges : List NalRange) : Prop where
  inBounds : ∀ range ∈ ranges, range.off + range.len ≤ out.length
  startCoded : ∀ range ∈ ranges, StartCodeAt out range.off
  disjoint : ranges.Pairwise fun left right =>
    left.off + left.len ≤ right.off ∨ right.off + right.len ≤ left.off
  increasing : ranges.Pairwise fun left right => left.off < right.off

theorem RangesSafe.append (h : RangesSafe out ranges) (extra : Bytes) :
    RangesSafe (out ++ extra) ranges where
  inBounds range hrange := by
    have hbound := h.inBounds range hrange
    simp only [length_append]
    omega
  startCoded range hrange := (h.startCoded range hrange).append extra
  disjoint := h.disjoint
  increasing := h.increasing

theorem RangesSafe.truncate (h : RangesSafe out ranges) (size : Nat)
    (hsize : ∀ range ∈ ranges, range.off + range.len ≤ size) :
    RangesSafe (out.take size) ranges where
  inBounds range hrange := by
    have hbound := h.inBounds range hrange
    have hcut := hsize range hrange
    simp only [length_take]
    omega
  startCoded range hrange := by
    have hcut := hsize range hrange
    exact (h.startCoded range hrange).truncate (by omega)
  disjoint := h.disjoint
  increasing := h.increasing

theorem RangesSafe.record (h : RangesSafe out ranges) (range : NalRange)
    (hbound : range.off + range.len ≤ out.length) (hcode : StartCodeAt out range.off)
    (hbehind : ∀ earlier ∈ ranges, earlier.off + earlier.len < range.off) :
    RangesSafe out (ranges ++ [range]) where
  inBounds other hother := by
    rcases mem_append.mp hother with hold | hnew
    · exact h.inBounds other hold
    · rw [mem_singleton.mp hnew]
      exact hbound
  startCoded other hother := by
    rcases mem_append.mp hother with hold | hnew
    · exact h.startCoded other hold
    · rw [mem_singleton.mp hnew]
      exact hcode
  disjoint := by
    refine pairwise_append.mpr ⟨h.disjoint, pairwise_singleton _ _, ?_⟩
    intro earlier hearlier last hlast
    rw [mem_singleton.mp hlast]
    exact Or.inl (hbehind earlier hearlier).le
  increasing := by
    refine pairwise_append.mpr ⟨h.increasing, pairwise_singleton _ _, ?_⟩
    intro earlier hearlier last hlast
    rw [mem_singleton.mp hlast]
    have hless := hbehind earlier hearlier
    omega

namespace NalAction

def opens : NalAction → Bool
  | .start _ => true
  | _ => false

def closes : NalAction → Bool
  | .more _ last => last
  | _ => false

def yields : NalAction → Bool
  | .units nals => !nals.isEmpty
  | _ => false

end NalAction

/-- A complete unit arrives behind a start fragment, and the fragmentation unit
is neither closed nor restarted before it.  A restart after it abandons the
fragment harmlessly; reaching the closing fragment or the end of the list with
the fragment still open is what breaks the ranges. -/
def Interrupted (actions : List NalAction) : Prop :=
  ∃ before unit inside after, actions = before ++ .start unit :: (inside ++ after) ∧
    (∀ action ∈ inside, action.opens = false ∧ action.closes = false) ∧
    (∃ action ∈ inside, action.yields = true) ∧
    (after = [] ∨ ∃ action rest, after = action :: rest ∧ action.closes = true)

/-- The part of the loop state that decides safety: `dirty` is an open fragment
with a unit recorded behind it, `broken` a closed one. -/
inductive FuScan where
  | idle
  | clean
  | dirty
  | broken
  deriving DecidableEq, Repr

variable {scan : FuScan}

def FuScan.step (scan : FuScan) (action : NalAction) : FuScan :=
  match scan, action with
  | .broken, _ => .broken
  | _, .start _ => .clean
  | .clean, .units nals => if nals.isEmpty then .clean else .dirty
  | .clean, .more _ last => if last then .idle else .clean
  | .dirty, .more _ last => if last then .broken else .dirty
  | scan, _ => scan

def FuScan.run (actions : List NalAction) : FuScan :=
  actions.foldl FuScan.step .idle

def Tracks (state : NalState) : FuScan → Prop
  | .idle => RangesSafe state.out state.ranges ∧ state.fuActive = false
  | .clean => RangesSafe state.out state.ranges ∧ state.fuActive = true ∧
      StartCodeAt state.out state.fuOff ∧
      ∀ range ∈ state.ranges, range.off + range.len ≤ state.fuOff - 4
  | .dirty => RangesSafe state.out state.ranges ∧ state.fuActive = true ∧
      StartCodeAt state.out state.fuOff ∧
      ∃ range ∈ state.ranges, state.fuOff < range.off
  | .broken => ¬ state.ranges.Pairwise fun left right => left.off < right.off

theorem broken_append (h : ¬ ranges.Pairwise fun left right => left.off < right.off)
    (extra : List NalRange) :
    ¬ (ranges ++ extra).Pairwise fun left right => left.off < right.off :=
  fun hall => h (pairwise_append.mp hall).1

theorem RangesSafe.emit (h : RangesSafe state.out state.ranges) (unit : Bytes) :
    RangesSafe (emit state unit).out (emit state unit).ranges := by
  refine RangesSafe.record ?_ _ ?_ (startCodeAt_push state.out unit) ?_
  · simp only [Media.emit, append_assoc]
    exact h.append _
  · simp only [Media.emit, length_append]
    exact le_refl _
  · intro earlier hearlier
    have hbound := h.inBounds earlier hearlier
    simp only [length_append, startCode, length_cons, length_nil]
    omega

def FuScan.afterUnit : FuScan → FuScan
  | .clean => .dirty
  | scan => scan

theorem Tracks.emit (h : Tracks state scan) (unit : Bytes) :
    Tracks (emit state unit) scan.afterUnit := by
  have hbehind (off : Nat) (hcode : StartCodeAt state.out off) :
      StartCodeAt (Media.emit state unit).out off ∧
        ∃ range ∈ (Media.emit state unit).ranges, off < range.off := by
    refine ⟨by simpa [Media.emit] using hcode.append (startCode ++ unit),
      ⟨_, _⟩, mem_append_right _ (mem_singleton_self _), ?_⟩
    have hle := hcode.2.1
    simp only [length_append, startCode, length_cons, length_nil]
    omega
  cases scan with
  | idle => exact ⟨h.1.emit unit, h.2⟩
  | clean => exact ⟨h.1.emit unit, h.2.1, hbehind _ h.2.2.1⟩
  | dirty => exact ⟨h.1.emit unit, h.2.1, hbehind _ h.2.2.1⟩
  | broken => exact broken_append h _

theorem FuScan.afterUnit_idem (scan : FuScan) : scan.afterUnit.afterUnit = scan.afterUnit := by
  cases scan <;> rfl

theorem Tracks.units (h : Tracks state scan) (nals : List Bytes) :
    Tracks (nals.foldl Media.emit state)
      (if nals.isEmpty then scan else scan.afterUnit) := by
  induction nals generalizing state scan with
  | nil => exact h
  | cons nal nals ih =>
    have htail := ih (h.emit nal)
    rw [FuScan.afterUnit_idem, ite_self] at htail
    exact htail

theorem Tracks.startFragment (h : Tracks state scan) (hscan : scan ≠ .broken) (unit : Bytes) :
    Tracks (startFragment state unit) .clean := by
  have hsafe : RangesSafe state.out state.ranges := by
    cases scan with
    | broken => exact absurd rfl hscan
    | idle => exact h.1
    | clean => exact h.1
    | dirty => exact h.1
  refine ⟨?_, rfl, startCodeAt_push state.out unit, ?_⟩
  · simp only [Media.startFragment, append_assoc]
    exact hsafe.append _
  · intro range hrange
    have hbound := hsafe.inBounds range hrange
    simpa [Media.startFragment, startCode] using hbound

/-- Closing a clean fragment records the last range of the buffer; closing a
dirty one records a range that starts in front of an earlier one. -/
theorem Tracks.continueFragment (h : Tracks state scan) (data : Bytes) (last : Bool) :
    Tracks (continueFragment state data last) (scan.step (.more data last)) := by
  cases scan with
  | idle =>
    simp only [Media.continueFragment, h.2]
    exact h
  | clean =>
    obtain ⟨hsafe, hactive, hcode, hends⟩ := h
    cases last with
    | false =>
      simp only [Media.continueFragment, hactive, ↓reduceIte, Bool.false_eq_true]
      exact ⟨hsafe.append data, rfl, hcode.append data, hends⟩
    | true =>
      simp only [Media.continueFragment, hactive, ↓reduceIte]
      have hle := hcode.2.1
      refine ⟨(hsafe.append data).record _ ?_ (hcode.append data) ?_, rfl⟩
      · simp only [length_append]
        omega
      · intro earlier hearlier
        have hend := hends earlier hearlier
        have hfour := hcode.1
        dsimp only
        omega
  | dirty =>
    obtain ⟨hsafe, hactive, hcode, later, hlater, hoff⟩ := h
    cases last with
    | false =>
      simp only [Media.continueFragment, hactive, ↓reduceIte, Bool.false_eq_true]
      exact ⟨hsafe.append data, rfl, hcode.append data, later, hlater, hoff⟩
    | true =>
      simp only [Media.continueFragment, hactive, ↓reduceIte]
      intro hall
      have hless := (pairwise_append.mp hall).2.2 later hlater _ (mem_singleton_self _)
      dsimp only at hless
      omega
  | broken =>
    unfold Media.continueFragment
    split
    · split
      · exact broken_append h _
      · exact h
    · exact h

theorem Tracks.apply (h : Tracks state scan) (action : NalAction) :
    Tracks (action.apply state) (scan.step action) := by
  cases action with
  | skip => cases scan <;> exact h
  | units nals =>
    have hunits := h.units nals
    cases scan <;> simpa [NalAction.apply, FuScan.step, FuScan.afterUnit] using hunits
  | start unit =>
    by_cases hscan : scan = .broken
    · subst hscan
      exact h
    · have hstart := h.startFragment hscan unit
      cases scan <;> first | exact absurd rfl hscan | exact hstart
  | more data last => exact h.continueFragment data last

theorem tracks_run (actions : List NalAction) :
    Tracks (actions.foldl NalAction.apply NalState.empty) (FuScan.run actions) := by
  induction actions using List.reverseRecOn with
  | nil =>
    exact ⟨⟨by simp [NalState.empty], by simp [NalState.empty], List.Pairwise.nil,
      List.Pairwise.nil⟩, rfl⟩
  | append_singleton actions action ih =>
    simp only [FuScan.run, foldl_append, foldl_cons, foldl_nil]
    exact ih.apply action

theorem reassemble_safe_iff_scan (actions : List NalAction) :
    RangesSafe (reassemble actions).out (reassemble actions).ranges ↔
      FuScan.run actions ≠ .dirty ∧ FuScan.run actions ≠ .broken := by
  have h := tracks_run actions
  unfold reassemble finish
  cases hscan : FuScan.run actions with
  | idle =>
    rw [hscan] at h
    simpa [h.2] using h.1
  | clean =>
    rw [hscan] at h
    obtain ⟨hsafe, hactive, -, hends⟩ := h
    simpa [hactive] using hsafe.truncate _ hends
  | dirty =>
    rw [hscan] at h
    obtain ⟨-, hactive, -, later, hlater, hoff⟩ := h
    simp only [hactive, ↓reduceIte, ne_eq, not_true_eq_false, false_and, iff_false]
    intro hsafe
    have hbound := hsafe.inBounds later hlater
    simp only [length_take] at hbound
    omega
  | broken =>
    rw [hscan] at h
    simp only [ne_eq, not_true_eq_false, and_false, iff_false]
    intro hsafe
    split at hsafe <;> exact h hsafe.increasing

theorem foldl_step_broken (actions : List NalAction) :
    actions.foldl FuScan.step .broken = .broken := by
  induction actions with
  | nil => rfl
  | cons action actions ih => exact ih

section

variable {action : NalAction}

theorem step_dirty_inside (hopens : action.opens = false) (hcloses : action.closes = false) :
    FuScan.step .dirty action = .dirty := by
  cases action <;> simp_all [FuScan.step, NalAction.opens, NalAction.closes]

theorem step_dirty_closes (hcloses : action.closes = true) :
    FuScan.step .dirty action = .broken := by
  cases action <;> simp_all [FuScan.step, NalAction.closes]

theorem step_clean_yields (hyields : action.yields = true) :
    FuScan.step .clean action = .dirty := by
  cases action <;> simp_all [FuScan.step, NalAction.yields]

theorem step_clean_inside (hopens : action.opens = false) (hcloses : action.closes = false)
    (hyields : action.yields = false) : FuScan.step .clean action = .clean := by
  cases action <;> simp_all [FuScan.step, NalAction.yields, NalAction.opens, NalAction.closes]

end

theorem foldl_step_dirty
    (hinside : ∀ action ∈ inside, action.opens = false ∧ action.closes = false) :
    inside.foldl FuScan.step .dirty = .dirty := by
  induction inside with
  | nil => rfl
  | cons action inside ih =>
    obtain ⟨hhead, hrest⟩ := forall_mem_cons.mp hinside
    rw [foldl_cons, step_dirty_inside hhead.1 hhead.2]
    exact ih hrest

theorem foldl_step_clean (hinside : ∀ action ∈ inside, action.opens = false ∧ action.closes = false)
    (hyields : ∃ action ∈ inside, action.yields = true) :
    inside.foldl FuScan.step .clean = .dirty := by
  induction inside with
  | nil => simp at hyields
  | cons action inside ih =>
    obtain ⟨hhead, hrest⟩ := forall_mem_cons.mp hinside
    by_cases hyield : action.yields = true
    · rw [foldl_cons, step_clean_yields hyield]
      exact foldl_step_dirty hrest
    · obtain ⟨other, hother, hothers⟩ := hyields
      rw [foldl_cons, step_clean_inside hhead.1 hhead.2 (Bool.eq_false_iff.mpr hyield)]
      rcases mem_cons.mp hother with heq | hmem
      · exact absurd (heq ▸ hothers) hyield
      · exact ih hrest ⟨other, hmem, hothers⟩

theorem run_of_interrupted (h : Interrupted actions) :
    FuScan.run actions = .dirty ∨ FuScan.run actions = .broken := by
  obtain ⟨before, unit, inside, after, rfl, hinside, hyields, hafter⟩ := h
  simp only [FuScan.run, foldl_append, foldl_cons]
  by_cases hbroken : before.foldl FuScan.step .idle = .broken
  · rw [hbroken]
    exact Or.inr (by simp only [FuScan.step, foldl_step_broken])
  · have hopen : FuScan.step (before.foldl FuScan.step .idle) (.start unit) = .clean := by
      cases hbefore : before.foldl FuScan.step .idle <;> first | exact absurd hbefore hbroken | rfl
    rw [hopen, foldl_step_clean hinside hyields]
    rcases hafter with rfl | ⟨action, rest, rfl, hcloses⟩
    · exact Or.inl rfl
    · rw [foldl_cons, step_dirty_closes hcloses, foldl_step_broken]
      exact Or.inr rfl

/-- What the scan has seen when a fragment is open: the start that opened it and
the payloads since. -/
def OpenedBy (actions inside : List NalAction) : Prop :=
  ∃ before unit, actions = before ++ .start unit :: inside ∧
    ∀ action ∈ inside, action.opens = false ∧ action.closes = false

theorem OpenedBy.snoc (h : OpenedBy actions inside) (hopens : action.opens = false)
    (hcloses : action.closes = false) : OpenedBy (actions ++ [action]) (inside ++ [action]) := by
  obtain ⟨before, unit, rfl, hinside⟩ := h
  refine ⟨before, unit, by simp, ?_⟩
  intro other hother
  rcases mem_append.mp hother with hold | hnew
  · exact hinside other hold
  · rw [mem_singleton.mp hnew]
    exact ⟨hopens, hcloses⟩

theorem openedBy_start (actions : List NalAction) (unit : Bytes) :
    OpenedBy (actions ++ [.start unit]) [] :=
  ⟨actions, unit, rfl, by simp⟩

def Explains (actions : List NalAction) : FuScan → Prop
  | .idle => True
  | .clean => ∃ inside, OpenedBy actions inside
  | .dirty => ∃ inside, OpenedBy actions inside ∧ ∃ action ∈ inside, action.yields = true
  | .broken => ∃ before inside action rest, actions = before ++ action :: rest ∧
      OpenedBy before inside ∧ (∃ other ∈ inside, other.yields = true) ∧ action.closes = true

theorem Explains.snoc (h : Explains actions scan) (action : NalAction) :
    Explains (actions ++ [action]) (scan.step action) := by
  cases scan with
  | idle =>
    cases action with
    | start unit => exact ⟨[], openedBy_start actions unit⟩
    | skip => trivial
    | units nals => trivial
    | more data last => trivial
  | clean =>
    obtain ⟨inside, hopened⟩ := h
    cases action with
    | start unit => exact ⟨[], openedBy_start actions unit⟩
    | skip => exact ⟨_, hopened.snoc rfl rfl⟩
    | units nals =>
      cases nals with
      | nil => exact ⟨_, hopened.snoc rfl rfl⟩
      | cons nal nals =>
        exact ⟨_, hopened.snoc rfl rfl, _, mem_append_right _ (mem_singleton_self _), rfl⟩
    | more data last =>
      cases last with
      | false => exact ⟨_, hopened.snoc rfl rfl⟩
      | true => trivial
  | dirty =>
    obtain ⟨inside, hopened, other, hother, hyields⟩ := h
    cases action with
    | start unit => exact ⟨[], openedBy_start actions unit⟩
    | skip => exact ⟨_, hopened.snoc rfl rfl, other, mem_append_left _ hother, hyields⟩
    | units nals =>
      exact ⟨_, hopened.snoc rfl rfl, other, mem_append_left _ hother, hyields⟩
    | more data last =>
      cases last with
      | false => exact ⟨_, hopened.snoc rfl rfl, other, mem_append_left _ hother, hyields⟩
      | true => exact ⟨actions, inside, _, [], rfl, hopened, ⟨other, hother, hyields⟩, rfl⟩
  | broken =>
    obtain ⟨before, inside, closing, rest, rfl, hopened, hyields, hcloses⟩ := h
    exact ⟨before, inside, closing, rest ++ [action], by simp, hopened, hyields, hcloses⟩

theorem explains_run (actions : List NalAction) : Explains actions (FuScan.run actions) := by
  induction actions using List.reverseRecOn with
  | nil => trivial
  | append_singleton actions action ih =>
    simp only [FuScan.run, foldl_append, foldl_cons, foldl_nil]
    exact ih.snoc action

theorem interrupted_iff_scan (actions : List NalAction) :
    Interrupted actions ↔ FuScan.run actions = .dirty ∨ FuScan.run actions = .broken := by
  refine ⟨run_of_interrupted, fun hscan => ?_⟩
  have h := explains_run actions
  rcases hscan with hdirty | hbroken
  · rw [hdirty] at h
    obtain ⟨inside, ⟨before, unit, rfl, hinside⟩, hyields⟩ := h
    exact ⟨before, unit, inside, [], by simp, hinside, hyields, Or.inl rfl⟩
  · rw [hbroken] at h
    obtain ⟨-, inside, closing, rest, rfl, ⟨before, unit, rfl, hinside⟩, hyields, hcloses⟩ := h
    exact ⟨before, unit, inside, closing :: rest, by simp, hinside, hyields,
      Or.inr ⟨closing, rest, rfl, hcloses⟩⟩

theorem reassemble_safe_iff (actions : List NalAction) :
    RangesSafe (reassemble actions).out (reassemble actions).ranges ↔ ¬ Interrupted actions := by
  rw [reassemble_safe_iff_scan, interrupted_iff_scan, not_or]

/-- Both codecs: the recorded ranges can be dereferenced exactly when no
complete unit interrupts a fragmentation unit. -/
theorem reassembled_ranges_safe_iff (payloads : List Bytes) :
    (RangesSafe (reassembleHevc payloads).out (reassembleHevc payloads).ranges ↔
      ¬ Interrupted (payloads.map hevcAction)) ∧
    (RangesSafe (reassembleH264 payloads).out (reassembleH264 payloads).ranges ↔
      ¬ Interrupted (payloads.map h264Action)) :=
  ⟨reassemble_safe_iff _, reassemble_safe_iff _⟩

/-- A start fragment followed by a single unit: the truncation empties the
buffer under the recorded range.  With an end fragment behind them the two
recorded ranges overlap and are out of order. -/
theorem interrupted_ranges_unsafe :
    ¬ RangesSafe
        (reassembleHevc [[0x62, 0x01, 0x93, 0, 8, 0x11], [0x02, 0x01, 0, 9, 0x22]]).out
        (reassembleHevc [[0x62, 0x01, 0x93, 0, 8, 0x11], [0x02, 0x01, 0, 9, 0x22]]).ranges ∧
      ¬ RangesSafe (reassembleH264 [[0x7C, 0x85, 0x11], [0x41, 0x22], [0x7C, 0x45, 0x33]]).out
        (reassembleH264 [[0x7C, 0x85, 0x11], [0x41, 0x22], [0x7C, 0x45, 0x33]]).ranges := by
  constructor
  · intro hsafe
    exact absurd (hsafe.inBounds ⟨11, 3⟩ (by decide)) (by decide)
  · intro hsafe
    exact absurd hsafe.increasing (by decide)

end Scshr.Media
