import Scshr.Session.SsrcAdoption

/-! The primary group of tiles (`SrtpDecryptor::primary_ssrc_group`): the loop over the sorted
SSRCs cuts them into runs, and a run of the right length that stands apart is one of them. -/
namespace Scshr.Session

open Common Lib Crypto SrtpDecryptor
open List hiding tail

variable {grp first : Nat} {front rest group : List UInt32} {back : UInt32}

theorem flatten_ssrcGroups (grp : Nat) (front : List UInt32) (back : UInt32) (rest : List UInt32) :
    (ssrcGroups grp front back rest).flatten = front ++ back :: rest := by
  induction rest generalizing front back with
  | nil => simp [ssrcGroups]
  | cons ssrc rest ih =>
    rw [ssrcGroups]
    split
    · rw [ih, append_assoc, singleton_append]
    · rw [flatten_cons, ih, nil_append, append_assoc, singleton_append]

theorem ssrcGroups_cons (behind : back < ssrc) : ssrcGroups grp front back (ssrc :: rest) =
    if ssrc.toNat = back.toNat + 1 ∧ front.length + 1 < grp then
      ssrcGroups grp (front ++ [back]) ssrc rest
    else (front ++ [back]) :: ssrcGroups grp [] ssrc rest := by
  have less := UInt32.lt_iff_toNat_lt.mp behind
  have near : ssrc - back ≤ 1 ↔ ssrc.toNat = back.toNat + 1 := by
    rw [UInt32.le_iff_toNat_le, UInt32.toNat_sub_of_le _ _ (UInt32.le_of_lt behind),
      UInt32.toNat_one]
    omega
  simp only [ssrcGroups, near]

theorem consecutive_of_mem_ssrcGroups (sorted : (back :: rest).Pairwise (· < ·))
    (opened : Consecutive first (front ++ [back])) (fits : front.length < grp) :
    ∀ group ∈ ssrcGroups grp front back rest,
      group ≠ [] ∧ group.length ≤ grp ∧ ∃ first, Consecutive first group := by
  have size : (front ++ [back]).length = front.length + 1 := length_append
  have ends : front ++ [back] ≠ [] := length_pos_iff.mp (size ▸ Nat.succ_pos _)
  induction rest generalizing first front back with
  | nil => exact forall_mem_singleton.mpr ⟨ends, size ▸ fits, first, opened⟩
  | cons ssrc rest ih =>
    rw [ssrcGroups_cons (rel_of_pairwise_cons sorted mem_cons_self)]
    split
    · next joins =>
      have last := opened.getLastD ends
      rw [getLastD_concat] at last
      exact ih sorted.of_cons (opened.snoc (joins.1.trans last)) (size ▸ joins.2)
        length_append (by simp)
    · exact forall_mem_cons.mpr ⟨⟨ends, size ▸ fits, first, opened⟩,
        ih sorted.of_cons (.singleton ssrc) (Nat.zero_lt_of_lt fits) rfl (by simp)⟩

/-- The open group grows to the run it begins, when the other members are ahead. -/
theorem mem_ssrcGroups_of_begun (sorted : (back :: rest).Pairwise (· < ·))
    (run : Consecutive first (front ++ back :: tail)) (ahead : ∀ x ∈ tail, x ∈ back :: rest) :
    front ++ back :: tail ∈ ssrcGroups (front ++ back :: tail).length front back rest := by
  induction rest generalizing front back tail with
  | nil =>
    have fresh := (nodup_cons.mp run.nodup.of_append_right).1
    obtain rfl := eq_nil_iff_forall_not_mem.mpr fun x mem =>
      fresh (mem_singleton.mp (ahead x mem) ▸ mem)
    exact mem_singleton_self _
  | cons ssrc rest ih =>
    have fresh := (nodup_cons.mp run.nodup.of_append_right).1
    have later x mem := (mem_cons.mp (ahead x mem)).resolve_left
      (ne_of_mem_of_not_mem mem fresh)
    have behind := rel_of_pairwise_cons sorted mem_cons_self
    have less := UInt32.lt_iff_toNat_lt.mp behind
    rw [ssrcGroups_cons behind]
    cases tail with
    | nil =>
      rw [if_neg (by simp)]
      exact mem_cons_self
    | cons next tail =>
      have here := ((run.getElem? front.length back).mp (by simp)).2
      have there := ((run.getElem? (front.length + 1) next).mp (by simp)).2
      have same : next = ssrc := by
        refine (mem_cons.mp (later next mem_cons_self)).resolve_right fun behind => ?_
        have less := UInt32.lt_iff_toNat_lt.mp (rel_of_pairwise_cons sorted.of_cons behind)
        omega
      subst same
      rw [append_cons] at run ⊢
      rw [if_pos ⟨by omega, by simp⟩]
      exact ih sorted.of_cons run fun x mem => later x (mem_cons_of_mem _ mem)

/-- A run that stands apart from all before it is a group. -/
theorem mem_ssrcGroups (sorted : (back :: rest).Pairwise (· < ·))
    (run : Consecutive first (ssrc :: tail)) (ahead : ∀ x ∈ ssrc :: tail, x ∈ back :: rest)
    (apart : ∀ x ∈ back :: rest, x.toNat + 1 ≠ first) (opened : ssrc = back → front = []) :
    ssrc :: tail ∈ ssrcGroups (ssrc :: tail).length front back rest := by
  have begins := ((run.getElem? 0 ssrc).mp rfl).2
  have rises x (mem : x ∈ ssrc :: tail) := ((run.mem_iff x).mp mem).1
  induction rest generalizing front back with
  | nil =>
    obtain rfl := mem_singleton.mp (ahead ssrc mem_cons_self)
    obtain rfl := opened rfl
    exact mem_ssrcGroups_of_begun sorted run (forall_mem_cons.mp ahead).2
  | cons next rest ih =>
    obtain rfl | later := mem_cons.mp (ahead ssrc mem_cons_self)
    · obtain rfl := opened rfl
      exact mem_ssrcGroups_of_begun sorted run (forall_mem_cons.mp ahead).2
    · have less := UInt32.lt_iff_toNat_lt.mp (rel_of_pairwise_cons sorted later)
      have gap := apart back mem_cons_self
      have ahead x (mem : x ∈ ssrc :: tail) : x ∈ next :: rest := by
        refine (mem_cons.mp (ahead x mem)).resolve_left ?_
        rintro rfl
        have := rises x mem
        omega
      have apart := (forall_mem_cons.mp apart).2
      rw [ssrcGroups_cons (rel_of_pairwise_cons sorted mem_cons_self)]
      split
      · refine ih sorted.of_cons ahead apart ?_
        rintro rfl
        omega
      · exact mem_cons_of_mem _ (ih sorted.of_cons ahead apart fun _ => rfl)

theorem head_of_heaviest {weight : List UInt32 → Nat} {groups : List (List UInt32)}
    (mem : group ∈ groups)
    (heaviest : ∀ other ∈ groups, other ≠ group → weight other < weight group) :
    ∃ rest, groups.insertionSort (weight · ≥ weight ·) = group :: rest := by
  have sorted := pairwise_insertionSort (weight · ≥ weight ·) groups
  have perm := perm_insertionSort (weight · ≥ weight ·) groups
  generalize groups.insertionSort (weight · ≥ weight ·) = ranked at sorted perm
  cases ranked with
  | nil => exact absurd (perm.mem_iff.mpr mem) not_mem_nil
  | cons top rest =>
    refine ⟨rest, congrArg (· :: rest) (by_contra fun other => ?_)⟩
    have light := heaviest top (perm.mem_iff.mp mem_cons_self) other
    have later := (mem_cons.mp (perm.mem_iff.mpr mem)).resolve_left (Ne.symm other)
    exact absurd light (Nat.not_lt.mpr (rel_of_pairwise_cons sorted later))

theorem pairwise_lt_insertionSort {ssrcs : List UInt32} (nodup : ssrcs.Nodup) :
    (ssrcs.insertionSort (· ≤ ·)).Pairwise (· < ·) :=
  (pairwise_insertionSort _ _).imp₂ (fun _ _ => UInt32.lt_of_le_of_ne)
    ((perm_insertionSort _ _).nodup_iff.mpr nodup)

/-- The candidates partition the counted SSRCs into runs, and a run that stands apart is the
primary group when it is heavier than all others. -/
theorem primarySsrcGroup_heaviest (decryptor : SrtpDecryptor) {w : Nat} (wide : 1 ≤ w) :
    (∀ first rest, decryptor.counts.keys.insertionSort (· ≤ ·) = first :: rest →
      (ssrcGroups w [] first rest).flatten.Perm decryptor.counts.keys ∧
      ∀ group ∈ ssrcGroups w [] first rest,
        group ≠ [] ∧ group.length ≤ w ∧ ∃ n, Consecutive n group) ∧
    ∀ n group, Consecutive n group → group.length = w →
      (∀ ssrc ∈ group, ssrc ∈ decryptor.counts) →
      (∀ ssrc ∈ decryptor.counts, ssrc.toNat + 1 ≠ n) →
      (∀ m other, Consecutive m other → other ≠ [] → other.length ≤ w →
        (∀ ssrc ∈ other, ssrc ∈ decryptor.counts) → other ≠ group →
        groupWeight decryptor.counts other < groupWeight decryptor.counts group) →
      primarySsrcGroup decryptor w 0 = some group := by
  have sorted := pairwise_lt_insertionSort decryptor.counts.keys_nodup
  have perm := perm_insertionSort (· ≤ ·) decryptor.counts.keys
  have size : (max 1 (w : Int)).toNat = w := by omega
  simp only [primarySsrcGroup, size, Int.lt_irrefl, if_false, Int.toNat_zero, Nat.zero_min]
  generalize decryptor.counts.keys.insertionSort (· ≤ ·) = keys at sorted perm ⊢
  have mem_keys ssrc : ssrc ∈ keys ↔ ssrc ∈ decryptor.counts := perm.mem_iff
  have runs {first rest} (cut : keys = first :: rest) : ∀ group ∈ ssrcGroups w [] first rest,
      group ≠ [] ∧ group.length ≤ w ∧ ∃ n, Consecutive n group :=
    consecutive_of_mem_ssrcGroups (cut ▸ sorted) (.singleton first) wide
  constructor
  · rintro first rest rfl
    exact ⟨flatten_ssrcGroups w [] first rest ▸ perm, runs rfl⟩
  · intro n group run full counted apart heaviest
    obtain ⟨ssrc, tail, rfl⟩ := exists_cons_of_length_pos (full ▸ wide)
    cases keys with
    | nil => exact absurd ((mem_keys ssrc).mpr (counted ssrc mem_cons_self)) not_mem_nil
    | cons first rest =>
      have mem : ssrc :: tail ∈ ssrcGroups (ssrc :: tail).length [] first rest :=
        mem_ssrcGroups sorted run (fun x mem => (mem_keys x).mpr (counted x mem))
          (fun x mem => apart x ((mem_keys x).mp mem)) fun _ => rfl
      rw [full] at mem
      obtain ⟨others, ranked⟩ := head_of_heaviest mem fun other member differs => by
        obtain ⟨holds, fits, m, run⟩ := runs rfl other member
        refine heaviest m other run holds fits (fun x mem => (mem_keys x).mp ?_) differs
        rw [← nil_append (first :: rest), ← flatten_ssrcGroups w [] first rest]
        exact mem_flatten.mpr ⟨other, member, mem⟩
      exact congrArg (·[0]?) ranked

/-- Two tiles next to each other, and a single source with more packets than each. -/
theorem primarySsrcGroup_pair : primarySsrcGroup
    ⟨⟨[], [], []⟩, ∅, ((∅ : AssocMap UInt32 Nat).insert 6 2).insert 9 3 |>.insert 5 2⟩ 2 0 =
      some [5, 6] := by
  have keys (x : UInt32) : x ∈ (((∅ : AssocMap UInt32 Nat).insert 6 2).insert 9 3).insert 5 2 ↔
      x = 5 ∨ x = 9 ∨ x = 6 := by
    simp only [AList.mem_insert, AList.notMem_empty, or_false]
  refine (primarySsrcGroup_heaviest _ (w := 2) (by decide)).2 5 [5, 6] rfl rfl ?_ ?_ ?_
  all_goals simp only [keys]
  · simp
  · rintro ssrc (rfl | rfl | rfl) <;> decide
  · intro m other run holds fits counted differs
    obtain ⟨a, rest, rfl⟩ := exists_cons_of_ne_nil holds
    have ha := counted a mem_cons_self
    cases rest with
    | nil => obtain rfl | rfl | rfl := ha <;> decide
    | cons b rest =>
      have hb := counted b (mem_cons_of_mem _ mem_cons_self)
      have low := ((run.getElem? 0 a).mp rfl).2
      have high := ((run.getElem? 1 b).mp rfl).2
      obtain rfl : rest = [] := by simpa using fits
      obtain rfl | rfl | rfl := ha <;> obtain rfl | rfl | rfl := hb <;> simp_all

end Scshr.Session
