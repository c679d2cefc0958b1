import Scshr.Media.RtpAssembler

/-! The packet order of the initial burst (`media/burst.cpp`) against the order
of the live assembler, for one (SSRC, timestamp) group. -/
namespace Scshr.Media

open Common Lib List

structure BurstPkt where
  seq : UInt16
  marker : Bool
  payload : Bytes
  t : Int
  deriving DecidableEq, Repr

def burstMin (pkts : List BurstPkt) : UInt16 :=
  pkts.foldl (fun least pkt => if pkt.seq < least then pkt.seq else least) 0xFFFF

def burstMax (pkts : List BurstPkt) : UInt16 :=
  pkts.foldl (fun most pkt => if most < pkt.seq then pkt.seq else most) 0

def burstOrder (pkts : List BurstPkt) : List BurstPkt :=
  let mn := burstMin pkts
  let mx := burstMax pkts
  if ((mx.toNat : Int) - mn.toNat) > 0x8000 then
    Circular.sortByKey (fun pkt => pkt.seq - mn) pkts
  else Circular.sortByKey BurstPkt.seq pkts

def BurstPkt.toGroup (slotOf : BurstPkt → UInt32) (pkt : BurstPkt) : GroupPacket :=
  ⟨pkt.seq, pkt.marker, slotOf pkt⟩

variable {pkts ordered : List BurstPkt} {base : UInt16}

theorem foldl_min_le (pkts : List BurstPkt) (start : UInt16) :
    let least := pkts.foldl (fun least pkt => if pkt.seq < least then pkt.seq else least) start
    least.toNat ≤ start.toNat ∧ ∀ pkt ∈ pkts, least.toNat ≤ pkt.seq.toNat := by
  induction pkts generalizing start with
  | nil => simp
  | cons head tail ih =>
    obtain ⟨hstart, htail⟩ := ih (if head.seq < start then head.seq else start)
    have hmin : (if head.seq < start then head.seq else start).toNat ≤ start.toNat ∧
        (if head.seq < start then head.seq else start).toNat ≤ head.seq.toNat := by
      split <;> rename_i hless <;> rw [UInt16.lt_iff_toNat_lt] at hless <;> omega
    simp only [foldl_cons, mem_cons, forall_eq_or_imp]
    exact ⟨hstart.trans hmin.1, hstart.trans hmin.2, htail⟩

theorem burstMin_le (hpkt : pkt ∈ pkts) :
    (burstMin pkts).toNat ≤ pkt.seq.toNat :=
  (foldl_min_le pkts 0xFFFF).2 pkt hpkt

/-- Subtracting the smallest sequence number does not change the plain order:
the wrap-aware branch sorts like the other one. -/
theorem burstOrder_eq_sortByKey
    (hinj : ∀ left ∈ pkts, ∀ right ∈ pkts, left.seq = right.seq → left = right) :
    burstOrder pkts = Circular.sortByKey BurstPkt.seq pkts := by
  unfold burstOrder
  dsimp only
  split
  · apply Circular.sortByKey_eq _ (Circular.sortByKey_perm _ pkts)
    · apply (Circular.sortByKey_pairwise BurstPkt.seq pkts).imp_of_mem
      intro left right hleft hright hle
      have hl := burstMin_le ((Circular.sortByKey_perm _ pkts).mem_iff.mp hleft)
      have hr := burstMin_le ((Circular.sortByKey_perm _ pkts).mem_iff.mp hright)
      have hlt := left.seq.toNat_lt
      have hrt := right.seq.toNat_lt
      simp only [UInt16.toNat_sub]
      omega
    · intro left hleft right hright heq
      exact hinj left hleft right hright ((UInt16.sub_left_inj _).mp heq)
  · rfl

theorem straddles_iff (h : Circular.Window BurstPkt.seq base ordered) :
    (∀ left ∈ ordered, ∀ right ∈ ordered, left.seq.toNat ≤ right.seq.toNat + 0x8000) ↔
      Circular.low BurstPkt.seq base ordered = [] ∨
        Circular.high BurstPkt.seq base ordered = [] := by
  constructor
  · intro hclose
    by_contra hboth
    obtain ⟨hlow, hhigh⟩ := not_or.mp hboth
    obtain ⟨early, hearly⟩ := exists_mem_of_ne_nil _ hhigh
    obtain ⟨late, hlate⟩ := exists_mem_of_ne_nil _ hlow
    have hnear := hclose early (mem_filter.mp hearly).1 late (mem_filter.mp hlate).1
    have hplain := Circular.offset_of_not_wrapped (Circular.not_wrapped_of_mem_high hearly)
    have hwrapped := Circular.offset_of_wrapped (Circular.wrapped_of_mem_low hlate)
    have hshort := h.short late (mem_filter.mp hlate).1
    omega
  · rintro hside left hleft right hright
    have hl := h.short left hleft
    have hr := h.short right hright
    -- on one side of the wrap, plain differences are differences of offsets
    rcases hside with hlow | hhigh
    · have hplain (pkt : BurstPkt) (hpkt : pkt ∈ ordered) :
          Circular.wrapped BurstPkt.seq base pkt = false := by
        simpa using filter_eq_nil_iff.mp hlow pkt hpkt
      have hlo := Circular.offset_of_not_wrapped (hplain left hleft)
      have hro := Circular.offset_of_not_wrapped (hplain right hright)
      omega
    · have hwrapped (pkt : BurstPkt) (hpkt : pkt ∈ ordered) :
          Circular.wrapped BurstPkt.seq base pkt = true := by
        simpa using filter_eq_nil_iff.mp hhigh pkt hpkt
      have hlo := Circular.offset_of_wrapped (hwrapped left hleft)
      have hro := Circular.offset_of_wrapped (hwrapped right hright)
      omega

theorem append_comm_map_iff (slotOf : BurstPkt → UInt32) :
    (Circular.low BurstPkt.seq base ordered ++ Circular.high BurstPkt.seq base ordered).map
        (BurstPkt.toGroup slotOf) =
      (Circular.high BurstPkt.seq base ordered ++ Circular.low BurstPkt.seq base ordered).map
        (BurstPkt.toGroup slotOf) ↔
      Circular.low BurstPkt.seq base ordered = [] ∨
        Circular.high BurstPkt.seq base ordered = [] := by
  constructor
  · intro heq
    by_contra hboth
    obtain ⟨hlow, hhigh⟩ := not_or.mp hboth
    obtain ⟨late, lates, hlates⟩ := exists_cons_of_ne_nil hlow
    obtain ⟨early, earlies, hearlies⟩ := exists_cons_of_ne_nil hhigh
    have hlateMem : late ∈ Circular.low BurstPkt.seq base ordered := by simp [hlates]
    have hearlyMem : early ∈ Circular.high BurstPkt.seq base ordered := by simp [hearlies]
    have hlate := Circular.wrapped_of_mem_low hlateMem
    have hearly := Circular.not_wrapped_of_mem_high hearlyMem
    rw [hlates, hearlies] at heq
    simp only [cons_append, map_cons, List.cons.injEq] at heq
    have hseq : late.seq = early.seq := congrArg GroupPacket.seq heq.1
    unfold Circular.wrapped at hlate hearly
    rw [hseq, hearly] at hlate
    exact absurd hlate (by decide)
  · rintro (hlow | hhigh)
    · rw [hlow, nil_append, append_nil]
    · rw [hhigh, nil_append, append_nil]

/-- The burst hands a group to the reassembler in the order of the live path
exactly when the group does not straddle the wrap from 65535 to 0. -/
theorem burst_order_eq_live_iff (base : UInt16) (pkts : List BurstPkt)
    (slotOf : BurstPkt → UInt32) (hwindow : ∀ pkt ∈ pkts, (pkt.seq - base).toNat ≤ 0x7FFF)
    (hdistinct : (pkts.map BurstPkt.seq).Nodup) :
    (burstOrder pkts).map (BurstPkt.toGroup slotOf) =
        RtpAssembler.sortedPackets (pkts.map (BurstPkt.toGroup slotOf)) ↔
      ∀ left ∈ pkts, ∀ right ∈ pkts, left.seq.toNat ≤ right.seq.toNat + 0x8000 := by
  obtain ⟨ordered, hperm, hordered⟩ := Circular.exists_window BurstPkt.seq base pkts
    (fun pkt hpkt => Nat.lt_succ_of_le (hwindow pkt hpkt)) hdistinct
  have hlive : RtpAssembler.sortedPackets (pkts.map (BurstPkt.toGroup slotOf)) =
      ordered.map (BurstPkt.toGroup slotOf) :=
    (hordered.map (BurstPkt.toGroup slotOf) fun _ => rfl).sort_eq (hperm.map _)
  have hinj : ∀ left ∈ pkts, ∀ right ∈ pkts, left.seq = right.seq → left = right :=
    fun left hleft right hright => inj_on_of_nodup_map hdistinct hleft hright
  have hcondition : (∀ left ∈ pkts, ∀ right ∈ pkts, left.seq.toNat ≤ right.seq.toNat + 0x8000) ↔
      ∀ left ∈ ordered, ∀ right ∈ ordered, left.seq.toNat ≤ right.seq.toNat + 0x8000 := by
    simp only [hperm.mem_iff]
  rw [hlive, burstOrder_eq_sortByKey hinj, hordered.sortByKey_eq hperm, hcondition,
    straddles_iff hordered]
  conv_lhs => rhs; rw [← hordered.high_append_low]
  exact append_comm_map_iff slotOf

def plainGroup : List BurstPkt :=
  [⟨12, true, [3], 0⟩, ⟨10, false, [1], 0⟩, ⟨11, false, [2], 0⟩]

theorem burst_order_eq_live_plainGroup :
    (burstOrder plainGroup).map (BurstPkt.toGroup fun _ => 7) =
      RtpAssembler.sortedPackets (plainGroup.map (BurstPkt.toGroup fun _ => 7)) :=
  (burst_order_eq_live_iff 10 plainGroup (fun _ => 7) (by decide) (by decide)).mpr (by decide)

def wrappedGroup : List BurstPkt :=
  [⟨65535, false, [1], 0⟩, ⟨0, true, [2], 0⟩]

theorem burst_order_ne_live_wrappedGroup :
    (∀ pkt ∈ wrappedGroup, (pkt.seq - 65535).toNat ≤ 0x7FFF) ∧
      (wrappedGroup.map BurstPkt.seq).Nodup ∧
      (burstOrder wrappedGroup).map (BurstPkt.toGroup fun _ => 7) ≠
        RtpAssembler.sortedPackets (wrappedGroup.map (BurstPkt.toGroup fun _ => 7)) := by
  decide

end Scshr.Media
