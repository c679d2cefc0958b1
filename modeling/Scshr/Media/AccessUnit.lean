import Mathlib.Data.List.Range
import Scshr.Media.AssemblerContinuity

/-! Access units as the sender numbers them, and what a pending group that
collects the packets of one of them looks like to the sort and to the
completeness test. -/
namespace Scshr.Media

open Common Lib List

/-- A sent access unit: its timestamp and the sequence number and marker of
each packet, in sending order. -/
structure AccessUnit where
  ts : UInt32
  packets : List (UInt16 × Bool)
  deriving DecidableEq, Repr

def unitPackets (anchor : UInt16) (size : Nat) : List (UInt16 × Bool) :=
  (List.range size).map fun index =>
    (anchor + 1 + UInt16.ofNat index, decide (index + 1 = size))

def Numbered : UInt16 → List AccessUnit → Prop
  | _, [] => True
  | anchor, unit :: rest =>
      unit.packets ≠ [] ∧ unit.packets = unitPackets anchor unit.packets.length ∧
        Numbered (anchor + UInt16.ofNat unit.packets.length) rest

def packetCount (units : List AccessUnit) : Nat :=
  (units.map fun unit => unit.packets.length).sum

def GroupPacket.view (pkt : GroupPacket) : UInt16 × Bool := (pkt.seq, pkt.marker)

variable {anchor : UInt16} {size start : Nat} {packet : UInt16 × Bool} {group : Group}
  {sorted : List GroupPacket}

theorem packetCount_append (left right : List AccessUnit) :
    packetCount (left ++ right) = packetCount left + packetCount right := by
  simp [packetCount]

theorem packetCount_cons (unit : AccessUnit) (rest : List AccessUnit) :
    packetCount (unit :: rest) = unit.packets.length + packetCount rest := by
  simp [packetCount]

theorem ofNat_add_assoc (anchor : UInt16) (left right : Nat) :
    anchor + UInt16.ofNat left + UInt16.ofNat right = anchor + UInt16.ofNat (left + right) := by
  rw [UInt16.ofNat_add, UInt16.add_assoc]

namespace Numbered

theorem unit {anchor : UInt16} {before after : List AccessUnit} {unit : AccessUnit}
    (h : Numbered anchor (before ++ unit :: after)) :
    unit.packets ≠ [] ∧
      unit.packets =
        unitPackets (anchor + UInt16.ofNat (packetCount before)) unit.packets.length := by
  induction before generalizing anchor with
  | nil => simpa [packetCount] using ⟨h.1, h.2.1⟩
  | cons head tail ih =>
    have htail := ih h.2.2
    rwa [ofNat_add_assoc, ← packetCount_cons] at htail

end Numbered

theorem length_unitPackets (anchor : UInt16) (size : Nat) :
    (unitPackets anchor size).length = size := by
  simp [unitPackets]

theorem offset_unitPackets (hsize : start + size ≤ 0x8000)
    (h : packet ∈ unitPackets (anchor + UInt16.ofNat start) size) :
    start ≤ (packet.1 - (anchor + 1)).toNat ∧
      (packet.1 - (anchor + 1)).toNat < start + size := by
  obtain ⟨index, hindex, rfl⟩ := mem_map.mp h
  have hlt := mem_range.mp hindex
  have hoffset : (anchor + UInt16.ofNat start + 1 + UInt16.ofNat index - (anchor + 1)).toNat =
      start + index := by
    simp only [UInt16.toNat_sub, UInt16.toNat_add, UInt16.toNat_ofNat', UInt16.toNat_one]
    have hanchor := anchor.toNat_lt
    omega
  rw [hoffset]
  omega

theorem ofNat_index_inj (hleft : left < 65536) (hright : right < 65536)
    (h : base + UInt16.ofNat left = base + UInt16.ofNat right) : left = right := by
  have hnat := congrArg UInt16.toNat ((UInt16.add_right_inj base).mp h)
  rw [UInt16.toNat_ofNat', UInt16.toNat_ofNat'] at hnat
  omega

theorem marker_unitPackets (hsize : size < 0x10000) (h : packet ∈ unitPackets anchor size) :
    packet.2 = decide (packet.1 = anchor + UInt16.ofNat size) := by
  obtain ⟨index, hindex, rfl⟩ := mem_map.mp h
  have hlt := mem_range.mp hindex
  have hnext : anchor + 1 + UInt16.ofNat index = anchor + UInt16.ofNat (1 + index) := by
    rw [← ofNat_add_assoc]
    rfl
  rw [hnext, decide_eq_decide]
  constructor
  · intro heq
    rw [← heq, Nat.add_comm]
  · intro heq
    have := ofNat_index_inj (by omega) (by omega) heq
    omega

theorem map_fst_unitPackets (anchor : UInt16) (size : Nat) :
    (unitPackets anchor size).map Prod.fst =
      (List.range size).map fun index => anchor + 1 + UInt16.ofNat index := by
  simp [unitPackets]

theorem unitPackets_increasing (hsize : size ≤ 0x8000) :
    (unitPackets anchor size).Pairwise fun left right =>
      (left.1 - (anchor + 1)).toNat < (right.1 - (anchor + 1)).toNat := by
  apply pairwise_map.mpr
  apply pairwise_lt_range.imp_of_mem
  intro left right hleft hright hless
  have hr := mem_range.mp hright
  have hanchor := anchor.toNat_lt
  simp only [UInt16.toNat_sub, UInt16.toNat_add, UInt16.toNat_ofNat', UInt16.toNat_one]
  omega

structure Collects (packets : List (UInt16 × Bool)) (group : Group) : Prop where
  sent : ∀ pkt ∈ group.pkts, pkt.view ∈ packets
  distinct : (group.pkts.map GroupPacket.seq).Nodup
  marker : group.hasMarker = group.pkts.any GroupPacket.marker
  nonempty : group.pkts ≠ []

open RtpAssembler

theorem Collects.window (h : Collects (unitPackets (anchor + UInt16.ofNat start) size) group)
    (hsize : start + size ≤ 0x8000) :
    Circular.Window GroupPacket.seq (anchor + 1) (sortedPackets group.pkts) := by
  obtain ⟨ordered, hperm, hwindow⟩ := Circular.exists_window GroupPacket.seq (anchor + 1) group.pkts
    (fun pkt hpkt => by
      have hoffset := offset_unitPackets hsize (h.sent pkt hpkt)
      exact lt_of_lt_of_le hoffset.2 hsize) h.distinct
  rw [show sortedPackets group.pkts = ordered from hwindow.sort_eq hperm]
  exact hwindow

theorem Collects.front (h : Collects (unitPackets (anchor + UInt16.ofNat start) size) group)
    (hsize : start + size ≤ 0x8000) :
    ∃ front, (sortedPackets group.pkts).head? = some front ∧
      start ≤ (front.seq - (anchor + 1)).toNat := by
  have hperm := sortedPackets_perm group.pkts
  cases hsorted : sortedPackets group.pkts with
  | nil => exact absurd (hsorted ▸ hperm).nil_eq.symm h.nonempty
  | cons front rest =>
    have hmem : front ∈ group.pkts := hperm.mem_iff.mp (by simp [hsorted])
    exact ⟨front, rfl, (offset_unitPackets hsize (h.sent front hmem)).1⟩

theorem Collects.not_complete (h : Collects (unitPackets (anchor + UInt16.ofNat start) size) group)
    (hsize : start + size ≤ 0x8000) (hstart : 0 < start) :
    groupComplete (some anchor) group (sortedPackets group.pkts) = false := by
  rw [Bool.eq_false_iff]
  intro hcomplete
  obtain ⟨front, -, hfront, -, -, -, -, hanchor⟩ := groupComplete_iff.mp hcomplete
  obtain ⟨first, hfirst, hoffset⟩ := h.front hsize
  rw [hfront, Option.some_inj] at hfirst
  subst hfirst
  rw [hanchor anchor rfl, UInt16.sub_self, UInt16.toNat_zero] at hoffset
  omega

theorem consecutive_map_seq
    (h : (front :: rest).IsChain fun left right => right.seq = left.seq + 1) :
    (front :: rest).map GroupPacket.seq =
      (List.range (front :: rest).length).map fun index => front.seq + UInt16.ofNat index := by
  induction rest generalizing front with
  | nil => simp
  | cons next rest ih =>
    obtain ⟨hnext, hrest⟩ := isChain_cons_cons.mp h
    have hlength : (front :: next :: rest).length = (next :: rest).length + 1 := rfl
    rw [map_cons, ih hrest, hlength, range_succ_eq_map, map_cons, map_map]
    refine congrArg₂ List.cons (UInt16.add_zero _).symm (map_congr_left fun index _ => ?_)
    rw [hnext, UInt16.add_assoc, Function.comp_apply, Nat.succ_eq_add_one, Nat.add_comm index,
      UInt16.ofNat_add]
    rfl

theorem hasGap_of_consecutive (h : sorted.IsChain fun left right => right.seq = left.seq + 1) :
    hasGap sorted = false := by
  induction sorted with
  | nil => rfl
  | cons left rest ih =>
    cases rest with
    | nil => rfl
    | cons right rest =>
      obtain ⟨hstep, hrest⟩ := isChain_cons_cons.mp h
      unfold hasGap
      rw [ih hrest, hstep, UInt16.add_comm, UInt16.add_sub_cancel]
      rfl

theorem unitPackets_consecutive (h : sorted.map GroupPacket.view = unitPackets anchor size) :
    sorted.IsChain fun left right => right.seq = left.seq + 1 := by
  have hviews : (sorted.map GroupPacket.view).IsChain fun left right => right.1 = left.1 + 1 := by
    rw [h, unitPackets, isChain_map]
    refine (isChain_range _ size).mpr fun index _ => ?_
    dsimp only
    rw [Nat.succ_eq_add_one, UInt16.ofNat_add, ← UInt16.add_assoc]
    rfl
  exact (isChain_map GroupPacket.view).mp hviews

/-- Passing the completeness test right behind the anchor means that the sorted
packets are the unit. -/
theorem Collects.complete_eq (h : Collects (unitPackets anchor size) group) (hsize : size ≤ 0x8000)
    (hcomplete : groupComplete (some anchor) group (sortedPackets group.pkts) = true) :
    (sortedPackets group.pkts).map GroupPacket.view = unitPackets anchor size := by
  obtain ⟨front, back, hfront, hback, -, hmarked, hgap, hanchor⟩ := groupComplete_iff.mp hcomplete
  have hdistinct := sortedPackets_distinct h.distinct
  have hsent : ∀ pkt ∈ sortedPackets group.pkts, pkt.view ∈ unitPackets anchor size :=
    fun pkt hpkt => h.sent pkt ((sortedPackets_perm group.pkts).mem_iff.mp hpkt)
  have hchain := hasGap_consecutive hdistinct hgap
  generalize sortedPackets group.pkts = sorted at *
  cases sorted with
  | nil => cases hfront
  | cons head tail =>
    obtain rfl : head = front := by simpa using hfront
    have hseqs := consecutive_map_seq hchain
    rw [hanchor anchor rfl] at hseqs
    -- the last packet carries the marker, so its number fixes the length
    have hlength : (head :: tail).length = size := by
      have hmem : back ∈ head :: tail := mem_of_getLast? hback
      have hlast : back.seq = anchor + UInt16.ofNat size := by
        simpa [GroupPacket.view, hmarked] using marker_unitPackets (by omega) (hsent back hmem)
      have hend : back.seq = anchor + UInt16.ofNat (1 + tail.length) := by
        have hgetLast := congrArg List.getLast? hseqs
        rw [List.getLast?_map, hback, length_cons, range_succ, map_append,
          map_singleton, List.getLast?_concat, Option.map_some, Option.some_inj] at hgetLast
        rw [hgetLast, UInt16.ofNat_add, ← UInt16.add_assoc]
        rfl
      have hle : (head :: tail).length ≤ size := by
        have hsubset : (head :: tail).map GroupPacket.view ⊆ unitPackets anchor size := by
          intro view hview
          obtain ⟨pkt, hpkt, rfl⟩ := mem_map.mp hview
          exact hsent pkt hpkt
        have hnodup : ((head :: tail).map GroupPacket.view).Nodup :=
          List.Nodup.of_map Prod.fst (by rw [map_map]; exact hdistinct)
        simpa [length_unitPackets] using hnodup.length_le_of_subset hsubset
      rw [length_cons] at hle ⊢
      have := ofNat_index_inj (by omega) (by omega) (hend.symm.trans hlast)
      omega
    let withMark (seq : UInt16) : UInt16 × Bool := (seq, decide (seq = anchor + UInt16.ofNat size))
    calc (head :: tail).map GroupPacket.view
        = ((head :: tail).map GroupPacket.seq).map withMark := by
          rw [map_map]
          exact map_congr_left fun pkt hpkt =>
            Prod.ext rfl (marker_unitPackets (by omega) (hsent pkt hpkt))
      _ = ((unitPackets anchor size).map Prod.fst).map withMark := by
          rw [hseqs, hlength, map_fst_unitPackets]
      _ = unitPackets anchor size := by
          rw [map_map]
          conv_rhs => rw [← map_id (unitPackets anchor size)]
          exact map_congr_left fun packet hpacket =>
            Prod.ext rfl (marker_unitPackets (by omega) hpacket).symm

theorem Collects.sorted_of_full (h : Collects (unitPackets anchor size) group)
    (hsize : size ≤ 0x8000)
    (hfull : ∀ packet ∈ unitPackets anchor size, packet ∈ group.pkts.map GroupPacket.view) :
    (sortedPackets group.pkts).map GroupPacket.view = unitPackets anchor size := by
  have hstart : Collects (unitPackets (anchor + UInt16.ofNat 0) size) group := by simpa using h
  have hincreasing := (hstart.window (by omega)).increasing
  have hperm := (sortedPackets_perm group.pkts).map GroupPacket.view
  have hunit : (unitPackets anchor size).Pairwise fun left right =>
      (left.1 - (anchor + 1)).toNat < (right.1 - (anchor + 1)).toNat :=
    unitPackets_increasing hsize
  have hviews : ((sortedPackets group.pkts).map GroupPacket.view).Pairwise fun left right =>
      (left.1 - (anchor + 1)).toNat < (right.1 - (anchor + 1)).toNat :=
    pairwise_map.mpr hincreasing
  refine List.Perm.eq_of_pairwise ?_ hviews hunit ?_
  · intro left right _ _ hless hgreater
    omega
  · refine (perm_ext_iff_of_nodup (hviews.imp ?_) (hunit.imp ?_)).mpr fun packet => ?_
    · rintro left right hless rfl
      omega
    · rintro left right hless rfl
      omega
    · rw [hperm.mem_iff]
      refine ⟨fun hmem => ?_, hfull packet⟩
      obtain ⟨pkt, hpkt, rfl⟩ := mem_map.mp hmem
      exact h.sent pkt hpkt

theorem Collects.complete_of_sorted (h : Collects (unitPackets anchor size) group) (hpos : 0 < size)
    (hsorted : (sortedPackets group.pkts).map GroupPacket.view = unitPackets anchor size) :
    groupComplete (some anchor) group (sortedPackets group.pkts) = true := by
  have hgap := hasGap_of_consecutive (unitPackets_consecutive hsorted)
  have hhead := congrArg List.head? hsorted
  have hlast := congrArg List.getLast? hsorted
  obtain ⟨size, rfl⟩ := Nat.exists_eq_add_one_of_ne_zero (Nat.ne_of_gt hpos)
  rw [unitPackets, List.head?_map, List.head?_map, List.head?_range, if_neg (by omega),
    Option.map_some, Option.map_eq_some_iff] at hhead
  rw [unitPackets, List.getLast?_map, List.getLast?_map, List.getLast?_range, if_neg (by omega),
    Option.map_some, Option.map_eq_some_iff] at hlast
  obtain ⟨front, hfront, hfirst⟩ := hhead
  obtain ⟨back, hback, hend⟩ := hlast
  have hmarked : back.marker = true := by simpa [GroupPacket.view] using congrArg Prod.snd hend
  refine groupComplete_iff.mpr ⟨front, back, hfront, hback, ?_, hmarked, hgap, ?_⟩
  · rw [h.marker, any_eq_true]
    exact ⟨back, (sortedPackets_perm group.pkts).mem_iff.mp (mem_of_getLast? hback), hmarked⟩
  · intro seq hseq
    rw [← Option.some_inj.mp hseq]
    simpa [GroupPacket.view] using congrArg Prod.fst hfirst

end Scshr.Media
