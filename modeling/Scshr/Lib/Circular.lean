import Mathlib.Data.List.Sort
import Mathlib.Tactic.Ring

/-! Sorting by a sixteen-bit circular key.  Elements are sorted by the plain
value of their key; when the span exceeds half the circle the order starts
behind the largest circular gap.  For elements inside a window of half the
circle this is the order of their offsets from the start of the window. -/
namespace Scshr.Lib.Circular

open List

/-- Index of the last largest value among `f 0, …, f (count - 1)`, by the usual
scan with a non-strict comparison against the best value so far. -/
def lastMaxIndex (f : Nat → UInt16) (count : Nat) : Nat :=
  ((range count).foldl
    (fun best index => if best.2 ≤ f index then (index, f index) else best)
    ((0, 0) : Nat × UInt16)).1

variable {f : Nat → UInt16} {peak count : Nat}

private theorem lastMax_scan (hpeak : ∀ index < count, index ≠ peak → f index < f peak) :
    let best := (range count).foldl
      (fun best index => if best.2 ≤ f index then (index, f index) else best)
      ((0, 0) : Nat × UInt16)
    best.2 ≤ f peak ∧ (peak < count → best = (peak, f peak)) := by
  induction count with
  | zero =>
    exact ⟨UInt16.le_iff_toNat_le.mpr (Nat.zero_le _), fun h => absurd h (Nat.not_lt_zero _)⟩
  | succ count ih =>
    obtain ⟨hbest, hfound⟩ := ih fun index hindex => hpeak index (by omega)
    simp only [range_succ, foldl_append, foldl_cons, foldl_nil]
    by_cases heq : count = peak
    · subst heq
      rw [if_pos hbest]
      exact ⟨UInt16.le_refl _, fun _ => rfl⟩
    · have hless := hpeak count (Nat.lt_succ_self _) heq
      split
      · rename_i hle
        refine ⟨UInt16.le_of_lt hless, fun hpc => ?_⟩
        -- the peak has been seen, so a smaller value cannot replace it
        rw [hfound (by omega)] at hle
        exact absurd hle (UInt16.not_le.mpr hless)
      · exact ⟨hbest, fun hpc => hfound (by omega)⟩

theorem lastMaxIndex_eq (hcount : peak < count)
    (hpeak : ∀ index < count, index ≠ peak → f index < f peak) : lastMaxIndex f count = peak := by
  unfold lastMaxIndex
  rw [(lastMax_scan hpeak).2 hcount]

theorem filter_append_filter_not {keep : α → Bool} {list : List α}
    (h : list.Pairwise fun left right => keep right = true → keep left = true) :
    list.filter keep ++ list.filter (fun item => !keep item) = list := by
  induction list with
  | nil => rfl
  | cons head tail ih =>
    obtain ⟨hhead, htail⟩ := pairwise_cons.mp h
    by_cases hkeep : keep head = true
    · simp [hkeep, ih htail]
    · have hnone : ∀ item ∈ tail, keep item = false := fun item hitem =>
        Bool.eq_false_iff.mpr fun hon => hkeep (hhead item hitem hon)
      have hempty : tail.filter keep = [] := by
        simpa [filter_eq_nil_iff] using hnone
      have hall : tail.filter (fun item => !keep item) = tail := by
        simpa [filter_eq_self] using hnone
      simp [hkeep, hempty, hall]

section Keyed

variable (key : α → UInt16)

def sortByKey (list : List α) : List α :=
  list.insertionSort fun left right => (key left).toNat ≤ (key right).toNat

def gapAfter (list : List α) (index : Nat) : UInt16 :=
  match list[index]?, list[(index + 1) % list.length]? with
  | some here, some next => key next - key here
  | _, _ => 0

def sort (list : List α) : List α :=
  let sorted := sortByKey key list
  match sorted.head?, sorted.getLast? with
  | some front, some back =>
      if sorted.length < 2 ∨ key back - key front ≤ 0x8000 then sorted
      else
        let start := (lastMaxIndex (gapAfter key sorted) sorted.length + 1) % sorted.length
        sorted.drop start ++ sorted.take start
  | _, _ => sorted

def offset (base : UInt16) (item : α) : Nat := (key item - base).toNat

variable {list ordered : List α} {base : UInt16} {item : α}

theorem sortByKey_perm (list : List α) : (sortByKey key list).Perm list :=
  perm_insertionSort _ _

theorem sort_perm (list : List α) : (sort key list).Perm list := by
  unfold sort
  have hsorted := sortByKey_perm key list
  generalize sortByKey key list = sorted at *
  dsimp only
  split
  · split
    · exact hsorted
    · apply List.Perm.trans _ hsorted
      apply perm_append_comm.trans
      rw [take_append_drop]
  · exact hsorted

theorem sortByKey_pairwise (list : List α) :
    (sortByKey key list).Pairwise fun left right => (key left).toNat ≤ (key right).toNat := by
  have : Std.Total fun left right : α => (key left).toNat ≤ (key right).toNat :=
    ⟨fun left right => Nat.le_total _ _⟩
  have : IsTrans α fun left right : α => (key left).toNat ≤ (key right).toNat :=
    ⟨fun _ _ _ => Nat.le_trans⟩
  exact pairwise_insertionSort _ _

theorem sortByKey_eq (hperm : sorted.Perm list)
    (hsorted : sorted.Pairwise fun left right => (key left).toNat ≤ (key right).toNat)
    (hinj : ∀ left ∈ list, ∀ right ∈ list, key left = key right → left = right) :
    sortByKey key list = sorted := by
  refine List.Perm.eq_of_pairwise ?_ (sortByKey_pairwise key list) hsorted
    ((sortByKey_perm key list).trans hperm.symm)
  intro left right hleft hright hle hge
  exact hinj left ((sortByKey_perm key list).mem_iff.mp hleft) right (hperm.mem_iff.mp hright)
    (UInt16.toNat_inj.mp (Nat.le_antisymm hle hge))

variable {key}

theorem gap_toNat (base : UInt16) (here next : α) :
    (key next - key here).toNat =
      (65536 + offset key base next - offset key base here) % 65536 := by
  unfold offset
  simp only [UInt16.toNat_sub]
  have hnext := (key next).toNat_lt
  have hhere := (key here).toNat_lt
  have hbase := base.toNat_lt
  omega

theorem gapAfter_eq {here next : α} (hhere : list[index]? = some here)
    (hnext : list[(index + 1) % list.length]? = some next) :
    gapAfter key list index = key next - key here := by
  simp only [gapAfter, hhere, hnext]

/-- The key has passed zero between the start of the window and the element. -/
def wrapped (key : α → UInt16) (base : UInt16) (item : α) : Bool := key item < base

theorem offset_of_not_wrapped (h : wrapped key base item = false) :
    (key item).toNat = base.toNat + offset key base item := by
  have hle : base.toNat ≤ (key item).toNat := by simpa [wrapped, UInt16.lt_iff_toNat_lt] using h
  have hkey := (key item).toNat_lt
  unfold offset
  simp only [UInt16.toNat_sub]
  omega

theorem offset_of_wrapped (h : wrapped key base item = true) :
    (key item).toNat + 65536 = base.toNat + offset key base item := by
  have hlt : (key item).toNat < base.toNat := by simpa [wrapped, UInt16.lt_iff_toNat_lt] using h
  have hbase := base.toNat_lt
  unfold offset
  simp only [UInt16.toNat_sub]
  omega

/-- Elements of a window of half the circle, listed by increasing offset. -/
structure Window (key : α → UInt16) (base : UInt16) (ordered : List α) : Prop where
  short : ∀ item ∈ ordered, offset key base item < 0x8000
  increasing : ordered.Pairwise fun left right => offset key base left < offset key base right

def high (key : α → UInt16) (base : UInt16) (ordered : List α) : List α :=
  ordered.filter fun item => !wrapped key base item

def low (key : α → UInt16) (base : UInt16) (ordered : List α) : List α :=
  ordered.filter (wrapped key base)

theorem wrapped_of_mem_low (h : item ∈ low key base ordered) : wrapped key base item = true :=
  (mem_filter.mp h).2

theorem not_wrapped_of_mem_high (h : item ∈ high key base ordered) :
    wrapped key base item = false := by
  simpa using (mem_filter.mp h).2

namespace Window

variable {here next : α}

theorem high_append_low (h : Window key base ordered) :
    high key base ordered ++ low key base ordered = ordered := by
  have hswitch : ordered.Pairwise fun left right =>
      (!wrapped key base right) = true → (!wrapped key base left) = true := by
    apply h.increasing.imp
    intro left right hless hright
    -- a wrapped left neighbour would push the right key past the top of the range
    by_contra hleft
    have hwrappedLeft : wrapped key base left = true := by simpa using hleft
    have hplainRight : wrapped key base right = false := by simpa using hright
    have hwrapped := offset_of_wrapped hwrappedLeft
    have hplain := offset_of_not_wrapped hplainRight
    have hkey := (key right).toNat_lt
    omega
  simpa [high, low] using filter_append_filter_not hswitch

theorem injective (h : Window key base ordered) (hleft : left ∈ ordered) (hright : right ∈ ordered)
    (hkey : key left = key right) : left = right := by
  have hnodup : (ordered.map (offset key base)).Nodup :=
    pairwise_map.mpr (h.increasing.imp fun hless => Nat.ne_of_lt hless)
  exact inj_on_of_nodup_map hnodup hleft hright (by unfold offset; rw [hkey])

/-- Sorting by plain key values lists the wrapped elements first. -/
theorem sortByKey_eq (h : Window key base ordered) (hperm : ordered.Perm list) :
    sortByKey key list = low key base ordered ++ high key base ordered := by
  apply Circular.sortByKey_eq key
  · have hswap : (low key base ordered ++ high key base ordered).Perm
        (high key base ordered ++ low key base ordered) := perm_append_comm
    rw [h.high_append_low] at hswap
    exact hswap.trans hperm
  · refine pairwise_append.mpr ⟨?_, ?_, ?_⟩
    · apply (h.increasing.sublist filter_sublist).imp_of_mem
      intro left right hleft hright hless
      have hl := offset_of_wrapped (wrapped_of_mem_low hleft)
      have hr := offset_of_wrapped (wrapped_of_mem_low hright)
      omega
    · apply (h.increasing.sublist filter_sublist).imp_of_mem
      intro left right hleft hright hless
      have hl := offset_of_not_wrapped (not_wrapped_of_mem_high hleft)
      have hr := offset_of_not_wrapped (not_wrapped_of_mem_high hright)
      omega
    · intro left hleft right hright
      have hl : wrapped key base left = true := wrapped_of_mem_low hleft
      have hr := offset_of_not_wrapped (not_wrapped_of_mem_high hright)
      have hlt : (key left).toNat < base.toNat := by
        simpa [wrapped, UInt16.lt_iff_toNat_lt] using hl
      omega
  · intro left hleft right hright
    exact h.injective (hperm.mem_iff.mpr hleft) (hperm.mem_iff.mpr hright)

theorem gap_forward (h : Window key base ordered) (hnext : next ∈ ordered)
    (hle : offset key base here ≤ offset key base next) : (key next - key here).toNat < 0x8000 := by
  have hshort := h.short next hnext
  rw [gap_toNat base]
  omega

theorem gap_backward (h : Window key base ordered) (hhere : here ∈ ordered)
    (hless : offset key base next < offset key base here) :
    0x8000 < (key next - key here).toNat := by
  have hshort := h.short here hhere
  rw [gap_toNat base]
  omega

theorem offset_head_le (h : Window key base (front :: rest)) (hitem : item ∈ front :: rest) :
    offset key base front ≤ offset key base item := by
  rcases mem_cons.mp hitem with heq | hmem
  · rw [heq]
  · exact ((pairwise_cons.mp h.increasing).1 item hmem).le

theorem sort_of_sortByKey (h : Window key base ordered) (hsorted : sortByKey key list = ordered) :
    sort key list = ordered := by
  unfold sort
  simp only [hsorted]
  cases ordered with
  | nil => rfl
  | cons front rest =>
    obtain ⟨back, hback⟩ : ∃ back, (front :: rest).getLast? = some back :=
      ⟨_, getLast?_eq_some_getLast (cons_ne_nil front rest)⟩
    have hmem : back ∈ front :: rest := mem_of_getLast? hback
    have hgap := h.gap_forward hmem (h.offset_head_le hmem)
    simp only [head?_cons, hback]
    rw [if_pos (Or.inr (UInt16.le_iff_toNat_le.mpr hgap.le))]

theorem offset_high_lt_low (h : Window key base ordered) (hearly : early ∈ high key base ordered)
    (hlate : late ∈ low key base ordered) : offset key base early < offset key base late := by
  have hordered := h.increasing
  rw [← h.high_append_low] at hordered
  exact (pairwise_append.mp hordered).2.2 early hearly late hlate

/-- In the plain order the only backward gap is the one between the last
wrapped and the first unwrapped element. -/
theorem lastMaxIndex_gap (h : Window key base ordered) (hlow : low key base ordered ≠ [])
    (hhigh : high key base ordered ≠ []) :
    lastMaxIndex (gapAfter key (low key base ordered ++ high key base ordered))
        (low key base ordered ++ high key base ordered).length =
      (low key base ordered).length - 1 := by
  have hmem (item : α) : item ∈ ordered ↔
      item ∈ high key base ordered ∨ item ∈ low key base ordered := by
    conv_lhs => rw [← h.high_append_low]
    exact mem_append
  have hlowPairwise : (low key base ordered).Pairwise fun left right =>
      offset key base left < offset key base right := h.increasing.sublist filter_sublist
  have hhighPairwise : (high key base ordered).Pairwise fun left right =>
      offset key base left < offset key base right := h.increasing.sublist filter_sublist
  have hbetween : ∀ early ∈ high key base ordered, ∀ late ∈ low key base ordered,
      offset key base early < offset key base late :=
    fun early hearly late hlate => h.offset_high_lt_low hearly hlate
  generalize low key base ordered = lows at *
  generalize high key base ordered = highs at *
  have hlows := length_pos_iff.mpr hlow
  have hhighs := length_pos_iff.mpr hhigh
  have hlength : (lows ++ highs).length = lows.length + highs.length := length_append
  have hpeak : 0x8000 < (gapAfter key (lows ++ highs) (lows.length - 1)).toNat := by
    have hhere : (lows ++ highs)[lows.length - 1]? = some lows[lows.length - 1] := by
      rw [getElem?_append_left (by omega), getElem?_eq_getElem]
    have hnext : (lows ++ highs)[(lows.length - 1 + 1) % (lows ++ highs).length]? =
        some highs[0] := by
      rw [hlength, Nat.mod_eq_of_lt (by omega), getElem?_append_right (by omega),
        show lows.length - 1 + 1 - lows.length = 0 by omega, getElem?_eq_getElem]
    rw [gapAfter_eq hhere hnext]
    exact h.gap_backward ((hmem _).mpr (Or.inr (getElem_mem _)))
      (hbetween _ (getElem_mem _) _ (getElem_mem _))
  apply lastMaxIndex_eq (by omega)
  intro index hindex hne
  rw [UInt16.lt_iff_toNat_lt]
  apply lt_trans _ hpeak
  rw [hlength] at hindex
  by_cases hfirst : index < lows.length
  · have hhere : (lows ++ highs)[index]? = some lows[index] := by
      rw [getElem?_append_left hfirst, getElem?_eq_getElem]
    have hnext : (lows ++ highs)[(index + 1) % (lows ++ highs).length]? =
        some lows[index + 1] := by
      rw [hlength, Nat.mod_eq_of_lt (by omega), getElem?_append_left (by omega),
        getElem?_eq_getElem]
    rw [gapAfter_eq hhere hnext]
    exact h.gap_forward ((hmem _).mpr (Or.inr (getElem_mem _)))
      (pairwise_iff_getElem.mp hlowPairwise _ _ _ _ (Nat.lt_succ_self _)).le
  · have hhere : (lows ++ highs)[index]? = some highs[index - lows.length] := by
      rw [getElem?_append_right (by omega), getElem?_eq_getElem]
    by_cases hlast : index + 1 = lows.length + highs.length
    · have hnext : (lows ++ highs)[(index + 1) % (lows ++ highs).length]? = some lows[0] := by
        rw [hlength, hlast, Nat.mod_self, getElem?_append_left hlows,
          getElem?_eq_getElem]
      rw [gapAfter_eq hhere hnext]
      exact h.gap_forward ((hmem _).mpr (Or.inr (getElem_mem _)))
        (hbetween _ (getElem_mem _) _ (getElem_mem _)).le
    · have hnext : (lows ++ highs)[(index + 1) % (lows ++ highs).length]? =
          some highs[index + 1 - lows.length] := by
        rw [hlength, Nat.mod_eq_of_lt (by omega), getElem?_append_right (by omega),
          getElem?_eq_getElem]
      rw [gapAfter_eq hhere hnext]
      exact h.gap_forward ((hmem _).mpr (Or.inl (getElem_mem _)))
        (pairwise_iff_getElem.mp hhighPairwise _ _ _ _ (by omega)).le

theorem sort_eq (h : Window key base ordered) (hperm : ordered.Perm list) :
    sort key list = ordered := by
  have hsorted := h.sortByKey_eq hperm
  have hsplit := h.high_append_low
  by_cases hlow : low key base ordered = []
  · apply h.sort_of_sortByKey
    apply hsorted.trans
    rw [hlow, append_nil] at hsplit
    rw [hlow, nil_append, hsplit]
  by_cases hhigh : high key base ordered = []
  · apply h.sort_of_sortByKey
    apply hsorted.trans
    rw [hhigh, nil_append] at hsplit
    rw [hhigh, append_nil, hsplit]
  have hpeak := h.lastMaxIndex_gap hlow hhigh
  have hgap : 0x8000 < (key ((high key base ordered).getLast hhigh) -
      key ((low key base ordered).head hlow)).toNat := by
    have hmem : (low key base ordered).head hlow ∈ ordered :=
      (mem_filter.mp (head_mem hlow)).1
    exact h.gap_backward hmem (h.offset_high_lt_low (getLast_mem hhigh) (head_mem hlow))
  have hlows := length_pos_iff.mpr hlow
  have hhighs := length_pos_iff.mpr hhigh
  unfold sort
  simp only [hsorted, hpeak]
  rw [head?_append_of_ne_nil _ hlow, head?_eq_some_head hlow,
    getLast?_append_of_ne_nil _ hhigh, getLast?_eq_some_getLast hhigh]
  have hspan : ¬ key ((high key base ordered).getLast hhigh) -
      key ((low key base ordered).head hlow) ≤ 0x8000 := by
    rw [UInt16.le_iff_toNat_le]
    exact Nat.not_le.mpr hgap
  simp only [length_append]
  rw [if_neg (not_or.mpr ⟨by omega, hspan⟩), Nat.sub_add_cancel hlows, Nat.mod_eq_of_lt (by omega)]
  rw [drop_left, take_left, hsplit]

theorem map (h : Window key base ordered) (rename : α → β)
    (hrename : ∀ item, rekey (rename item) = key item) :
    Window rekey base (ordered.map rename) where
  short renamed hrenamed := by
    obtain ⟨item, hitem, rfl⟩ := mem_map.mp hrenamed
    simpa [offset, hrename] using h.short item hitem
  increasing := by
    rw [pairwise_map]
    exact h.increasing.imp fun hless => by simpa [offset, hrename] using hless

end Window

theorem exists_window (key : α → UInt16) (base : UInt16) (list : List α)
    (hshort : ∀ item ∈ list, offset key base item < 0x8000) (hnodup : (list.map key).Nodup) :
    ∃ ordered, ordered.Perm list ∧ Window key base ordered := by
  have hperm := sortByKey_perm (fun item => key item - base) list
  refine ⟨_, hperm, fun item hitem => hshort item (hperm.mem_iff.mp hitem), ?_⟩
  have hkeys : ((sortByKey (fun item => key item - base) list).map key).Nodup :=
    (hperm.map key).nodup_iff.mpr hnodup
  refine (sortByKey_pairwise (fun item => key item - base) list).imp₂ ?_
    (pairwise_map.mp hkeys)
  intro left right hle hne
  apply lt_of_le_of_ne hle
  intro heq
  apply hne
  have hsub := UInt16.toNat_inj.mp heq
  exact (UInt16.sub_left_inj base).mp hsub

end Keyed

end Scshr.Lib.Circular
