import Scshr.Media.AccessUnit
import Scshr.Media.AssemblerFrame

/-! Loss-free reordering on one SSRC.  Access units are flushed in sending order
whatever the arrival order: the invariant splits the units into a flushed prefix
and a rest whose packets wait in their groups, and only the first unit of the
rest can pass the completeness test. -/
namespace Scshr.Media

namespace RtpAssembler

open Common Lib Option AList
open List hiding after

def Queued (ssrc : UInt32) (ops : List AssemblerOp) (ts : UInt32) (pkt : GroupPacket) : Prop :=
  ∃ now, .queue ssrc ts pkt now ∈ ops

/-- The event hands over one access unit, complete and in sending order, made
of packets that were queued for it. -/
def Delivers (ssrc : UInt32) (ops : List AssemblerOp) (unit : AccessUnit) (event : Event) : Prop :=
  ∃ group, event = .flush group ∧ group.ssrc = ssrc ∧ group.ts = unit.ts ∧
    group.packets.map GroupPacket.view = unit.packets ∧ group.incomplete = false ∧
    ∀ pkt ∈ group.packets, Queued ssrc ops unit.ts pkt

structure Gathers (ssrc : UInt32) (start : Int) (ops : List AssemblerOp) (unit : AccessUnit)
    (group : Group) : Prop where
  collects : Collects unit.packets group
  deadline : group.repairDeadlineNs = 0 ∨ start + avcRepairWaitNs ≤ group.repairDeadlineNs
  arrival : start ≤ group.arrivalNs
  queued : ∀ pkt ∈ group.pkts, Queued ssrc ops unit.ts pkt

variable {ssrc : UInt32} {ops more : List AssemblerOp} {unit : AccessUnit} {start : Int}

theorem Queued.mono (hsub : ops ⊆ more) (h : Queued ssrc ops ts pkt) : Queued ssrc more ts pkt := by
  obtain ⟨now, hmem⟩ := h
  exact ⟨now, hsub hmem⟩

theorem Delivers.mono (hsub : ops ⊆ more) (h : Delivers ssrc ops unit event) :
    Delivers ssrc more unit event := by
  obtain ⟨group, hevent, hssrc, hts, hpackets, hincomplete, hqueued⟩ := h
  exact ⟨group, hevent, hssrc, hts, hpackets, hincomplete, fun pkt hpkt =>
    (hqueued pkt hpkt).mono hsub⟩

theorem Gathers.mono (hsub : ops ⊆ more) (h : Gathers ssrc start ops unit group) :
    Gathers ssrc start more unit group :=
  ⟨h.collects, h.deadline, h.arrival, fun pkt hpkt => (h.queued pkt hpkt).mono hsub⟩

/-- After `ops`, the units in `done` have been flushed and those in `rest` are
being collected. -/
structure Progress (ssrc : UInt32) (start : Int) (old : List Event) (foreign : UInt32 → Prop)
    (ops : List AssemblerOp) (anchor : UInt16) (done rest : List AccessUnit)
    (state : RtpAssembler) : Prop where
  keyed : WellKeyed state
  codec : state.codec = .avc
  anchored : state.lastMarkerSeq.lookup ssrc = some anchor
  numbered : Numbered anchor rest
  short : packetCount rest ≤ 0x8000
  distinct : ((done ++ rest).map AccessUnit.ts).Nodup
  waiting : ∀ unit ∈ rest, state.recentlyFlushed.lookup (key ssrc unit.ts) = none
  closed : ∀ unit ∈ done, ∃ flushedAt,
    state.recentlyFlushed.lookup (key ssrc unit.ts) = some flushedAt ∧ start ≤ flushedAt
  pending : ∀ ts group, state.groups.lookup (key ssrc ts) = some group →
    ∃ unit ∈ rest, unit.ts = ts ∧ Gathers ssrc start ops unit group
  arrived : ∀ unit ∈ rest, ∀ pkt, Queued ssrc ops unit.ts pkt → ∃ group,
    state.groups.lookup (key ssrc unit.ts) = some group ∧ pkt.view ∈ group.pkts.map GroupPacket.view
  events : ∃ fresh, state.events = old ++ fresh ∧
    List.Forall₂ (Delivers ssrc ops) done (eventsOf ssrc fresh) ∧
    ∀ event ∈ fresh, event.ssrc = ssrc ∨ foreign event.ssrc
  others : ∀ k, (state.groups.lookup k).isSome → k.1 = ssrc ∨ foreign k.1

def Ready (ssrc : UInt32) (rest : List AccessUnit) (state : RtpAssembler) : Prop :=
  ∃ unit after group, rest = unit :: after ∧ state.groups.lookup (key ssrc unit.ts) = some group ∧
    ∀ packet ∈ unit.packets, packet ∈ group.pkts.map GroupPacket.view

/-- The state after a call: some further units have been flushed, and the next
one is still missing packets. -/
def Settled (ssrc : UInt32) (start : Int) (old : List Event) (foreign : UInt32 → Prop)
    (ops : List AssemblerOp) (units : List AccessUnit) (state : RtpAssembler) : Prop :=
  ∃ anchor done rest, done ++ rest = units ∧
    Progress ssrc start old foreign ops anchor done rest state ∧ ¬ Ready ssrc rest state

section

variable {old : List Event} {foreign : UInt32 → Prop} {anchor : UInt16}
  {done rest : List AccessUnit} {state : RtpAssembler}

theorem rankLe_sorted (state : RtpAssembler) (ssrc : UInt32) :
    ((state.rankedKeys ssrc).insertionSort rankLe).Pairwise rankLe := by
  have : Std.Total rankLe := ⟨fun left right => by unfold rankLe; omega⟩
  have : IsTrans ((Nat × Int) × Key) rankLe := ⟨fun left middle right => by unfold rankLe; omega⟩
  exact pairwise_insertionSort _ _

theorem mem_rankedKeys (h : entry ∈ state.rankedKeys ssrc) :
    ∃ group, state.groups.lookup entry.2 = some group ∧ group.ssrc = ssrc ∧
      entry.1 = groupRank (state.lastMarkerSeq.lookup ssrc) group := by
  obtain ⟨k, -, hranked⟩ := mem_filterMap.mp h
  cases hfind : state.groups.lookup k with
  | none => simp [hfind] at hranked
  | some group =>
    by_cases hssrc : group.ssrc = ssrc
    · simp only [hfind, hssrc, ↓reduceIte, some_inj] at hranked
      subst hranked
      exact ⟨group, hfind, hssrc, rfl⟩
    · simp [hfind, hssrc] at hranked

theorem orderedKeys_head (hmem : k ∈ state.orderedKeys ssrc)
    (hfirst : ∀ other group, state.groups.lookup other = some group → group.ssrc = ssrc →
      other = k ∨ 0 < (groupRank (state.lastMarkerSeq.lookup ssrc) group).1)
    (hzero : ∀ group, state.groups.lookup k = some group →
      (groupRank (state.lastMarkerSeq.lookup ssrc) group).1 = 0) :
    ∃ tail, state.orderedKeys ssrc = k :: tail := by
  have hsorted := rankLe_sorted state ssrc
  have hperm := perm_insertionSort rankLe (state.rankedKeys ssrc)
  unfold orderedKeys at hmem ⊢
  generalize (state.rankedKeys ssrc).insertionSort rankLe = sorted at *
  cases sorted with
  | nil => simp at hmem
  | cons head tail =>
    obtain ⟨group, hfind, hssrc, hrank⟩ := mem_rankedKeys (hperm.mem_iff.mp mem_cons_self)
    refine ⟨tail.map Prod.snd, ?_⟩
    rw [map_cons]
    refine congrArg (· :: _) ?_
    rcases hfirst head.2 group hfind hssrc with heq | hpos
    · exact heq
    · obtain ⟨entry, hentry, rfl⟩ := mem_map.mp hmem
      rcases mem_cons.mp hentry with heq | htail
      · rw [heq]
      · -- the head would rank above zero and still not behind our key
        have hle := (pairwise_cons.mp hsorted).1 entry htail
        obtain ⟨own, hown, -, hentryRank⟩ := mem_rankedKeys (hperm.mem_iff.mp hentry)
        have hownZero := hzero own hown
        unfold rankLe at hle
        rw [hentryRank, hrank] at hle
        omega

theorem packetCount_pos (h : Numbered anchor (before ++ after)) (hne : before ≠ []) :
    0 < packetCount before := by
  obtain ⟨head, tail, rfl⟩ := exists_cons_of_ne_nil hne
  have hpos := length_pos_iff.mpr h.1
  rw [packetCount_cons]
  omega

namespace Progress

variable {group : Group} {now : Int} {after : List AccessUnit}

theorem rank_eq (hfront : (sortedPackets group.pkts).head? = some front) :
    (groupRank (some anchor) group).1 = (front.seq - (anchor + 1)).toNat := by
  simp only [groupRank, hfront]

theorem key_ts_ne (hne : left ≠ right) : key ssrc left ≠ key ssrc right :=
  fun heq => hne (congrArg Prod.snd heq)

theorem armDeadline_ready (now : Int) (hfind : state.groups.lookup k = some group)
    (h : Ready ssrc rest (state.armDeadline k group now)) : Ready ssrc rest state := by
  obtain ⟨unit, after, found, hrest, hfound, hfull⟩ := h
  unfold RtpAssembler.armDeadline at hfound
  split at hfound
  · by_cases heq : key ssrc unit.ts = k
    · subst heq
      obtain rfl := some_inj.mp ((lookup_insert _).symm.trans hfound)
      exact ⟨unit, after, group, hrest, hfind, hfull⟩
    · exact ⟨unit, after, found, hrest, (lookup_insert_ne heq).symm.trans hfound, hfull⟩
  · exact ⟨unit, after, found, hrest, hfound, hfull⟩

theorem ready_storePacket (hready : ¬ Ready ssrc rest state)
    (hstored : Ready ssrc rest (state.storePacket ssrc unit.ts pkt now)) :
    ∃ first after, rest = first :: after ∧ first.ts = unit.ts := by
  obtain ⟨first, after, group, hrest, hfind, hfull⟩ := hstored
  refine ⟨first, after, hrest, ?_⟩
  by_contra hne
  refine hready ⟨first, after, group, hrest, ?_, hfull⟩
  rw [← hfind]
  exact (lookup_insert_ne (key_ts_ne hne)).symm

section

variable (h : Progress ssrc start old foreign ops anchor done rest state)
include h

variable {ts : UInt32} {next : RtpAssembler} {k : Key} {pkt : GroupPacket}

theorem located (hfind : state.groups.lookup (key ssrc ts) = some group) :
    ∃ before unit after, rest = before ++ unit :: after ∧ unit.ts = ts ∧
      Gathers ssrc start ops unit group ∧
      Collects (unitPackets (anchor + UInt16.ofNat (packetCount before)) unit.packets.length)
        group ∧
      packetCount before + unit.packets.length ≤ 0x8000 := by
  obtain ⟨unit, hunit, hts, hgathers⟩ := h.pending ts group hfind
  obtain ⟨before, after, hrest⟩ := append_of_mem hunit
  have hnumbered := h.numbered
  have hshort := h.short
  rw [hrest] at hnumbered hshort
  rw [packetCount_append, packetCount_cons] at hshort
  refine ⟨before, unit, after, hrest, hts, hgathers, ?_, by omega⟩
  rw [← hnumbered.unit.2]
  exact hgathers.collects

theorem gathers (hunit : unit ∈ rest)
    (hfind : state.groups.lookup (key ssrc unit.ts) = some group) :
    Gathers ssrc start ops unit group := by
  obtain ⟨owner, howner, hts, hgathers⟩ := h.pending unit.ts group hfind
  have hdistinct := h.distinct
  rw [map_append] at hdistinct
  rwa [inj_on_of_nodup_map hdistinct.of_append_right howner hunit hts] at hgathers

theorem complete_head (hfind : state.groups.lookup (key ssrc ts) = some group)
    (hcomplete : groupComplete (some anchor) group (sortedPackets group.pkts) = true) :
    ∃ unit after, rest = unit :: after ∧ unit.ts = ts ∧ Gathers ssrc start ops unit group ∧
      (sortedPackets group.pkts).map GroupPacket.view = unit.packets := by
  obtain ⟨before, unit, after, rfl, hts, hgathers, hcollects, hsize⟩ := h.located hfind
  by_cases hbefore : before = []
  · subst hbefore
    have hunit := h.numbered.unit.2
    have hnil : packetCount [] = 0 := rfl
    rw [hnil, show UInt16.ofNat 0 = 0 from rfl, UInt16.add_zero] at hcollects hunit
    refine ⟨unit, after, rfl, hts, hgathers, ?_⟩
    rw [hunit]
    exact hcollects.complete_eq (by omega) hcomplete
  · have hpos := packetCount_pos h.numbered hbefore
    rw [hcollects.not_complete hsize hpos] at hcomplete
    cases hcomplete

theorem ready_head
    (hready : Ready ssrc rest state) :
    ∃ unit after group tail, rest = unit :: after ∧
      state.groups.lookup (key ssrc unit.ts) = some group ∧
      groupComplete (some anchor) group (sortedPackets group.pkts) = true ∧
      state.orderedKeys ssrc = key ssrc unit.ts :: tail := by
  obtain ⟨unit, after, group, rfl, hfind, hfull⟩ := hready
  have hunit := h.numbered.2.1
  have hcollects := (h.gathers mem_cons_self hfind).collects
  have hsize : unit.packets.length ≤ 0x8000 := by
    have hshort := h.short
    rw [packetCount_cons] at hshort
    omega
  rw [hunit] at hcollects hfull
  have hcomplete := hcollects.complete_of_sorted (length_pos_iff.mpr h.numbered.1)
    (hcollects.sorted_of_full hsize hfull)
  obtain ⟨tail, htail⟩ : ∃ tail, state.orderedKeys ssrc = key ssrc unit.ts :: tail := by
    refine orderedKeys_head (mem_orderedKeys.mpr ⟨h.keyed.listed _ group hfind, group, hfind,
      h.keyed.ssrc hfind⟩) ?_ ?_
    · intro other found hfound hssrc
      obtain rfl : key ssrc found.ts = other := hssrc ▸ h.keyed.keyed other found hfound
      obtain ⟨before, owner, behind, hrest, hts, -, hcollected, hshort⟩ := h.located hfound
      by_cases hbefore : before = []
      · subst hbefore
        obtain ⟨rfl, -⟩ := cons_eq_cons.mp hrest
        left
        rw [hts]
      · right
        have hnumbered := h.numbered
        rw [hrest] at hnumbered
        have hpos := packetCount_pos hnumbered hbefore
        obtain ⟨front, hfront, hoffset⟩ := hcollected.front hshort
        rw [h.anchored, rank_eq hfront]
        omega
    · intro found hfound
      obtain rfl := some_inj.mp (hfind.symm.trans hfound)
      obtain ⟨front, -, hfront, -, -, -, -, hanchor⟩ := groupComplete_iff.mp hcomplete
      rw [h.anchored, rank_eq hfront, hanchor anchor rfl, UInt16.sub_self, UInt16.toNat_zero]
  exact ⟨unit, after, group, tail, rfl, hfind, hcomplete, htail⟩

theorem regroup (hsub : ops ⊆ more) (hkeyed : WellKeyed next) (hcodec : next.codec = state.codec)
    (hanchor : next.lastMarkerSeq = state.lastMarkerSeq)
    (hflushed : next.recentlyFlushed = state.recentlyFlushed) (hevents : next.events = state.events)
    (hpending : ∀ ts group, next.groups.lookup (key ssrc ts) = some group →
      ∃ unit ∈ rest, unit.ts = ts ∧ Gathers ssrc start more unit group)
    (harrived : ∀ unit ∈ rest, ∀ pkt, Queued ssrc more unit.ts pkt → ∃ group,
      next.groups.lookup (key ssrc unit.ts) = some group ∧
        pkt.view ∈ group.pkts.map GroupPacket.view)
    (hothers : ∀ k, (next.groups.lookup k).isSome → k.1 = ssrc ∨ foreign k.1) :
    Progress ssrc start old foreign more anchor done rest next where
  keyed := hkeyed
  codec := hcodec.trans h.codec
  anchored := by rw [hanchor]; exact h.anchored
  numbered := h.numbered
  short := h.short
  distinct := h.distinct
  waiting := by rw [hflushed]; exact h.waiting
  closed := by rw [hflushed]; exact h.closed
  pending := hpending
  arrived := harrived
  events := by
    rw [hevents]
    obtain ⟨fresh, hfresh, hdelivers, hforeign⟩ := h.events
    exact ⟨fresh, hfresh, hdelivers.imp fun _ _ hone => hone.mono hsub, hforeign⟩
  others := hothers

/-- Calls that queue nothing for the waiting units keep the invariant. -/
theorem remember (hsub : ops ⊆ more)
    (hnew : ∀ unit ∈ rest, ∀ pkt, Queued ssrc more unit.ts pkt → Queued ssrc ops unit.ts pkt) :
    Progress ssrc start old foreign more anchor done rest state := by
  refine h.regroup hsub h.keyed rfl rfl rfl rfl ?_ ?_ h.others
  · intro ts group hfind
    obtain ⟨unit, hunit, hts, hgathers⟩ := h.pending ts group hfind
    exact ⟨unit, hunit, hts, hgathers.mono hsub⟩
  · exact fun unit hunit pkt hqueued => h.arrived unit hunit pkt (hnew unit hunit pkt hqueued)

theorem release (slot : UInt32) :
    Progress ssrc start old foreign ops anchor done rest
      { state with pool := state.pool.release slot } :=
  h.regroup (List.Subset.refl ops) ⟨h.keyed.keyed, h.keyed.listed⟩ rfl rfl rfl rfl h.pending
    h.arrived h.others

theorem setDeadline (deadline : Int) (hfind : state.groups.lookup k = some group)
    (hdeadline : deadline = 0 ∨ start + avcRepairWaitNs ≤ deadline) :
    Progress ssrc start old foreign ops anchor done rest (state.setDeadline k group deadline) := by
  refine h.regroup (List.Subset.refl ops) (h.keyed.setDeadline deadline hfind) rfl rfl rfl rfl
    ?_ ?_ ?_
  · intro ts found hfound
    by_cases heq : key ssrc ts = k
    · subst heq
      obtain rfl := some_inj.mp ((lookup_insert _).symm.trans hfound)
      obtain ⟨unit, hunit, hts, hgathers⟩ := h.pending ts group hfind
      have hcollects := hgathers.collects
      exact ⟨unit, hunit, hts, ⟨hcollects.sent, hcollects.distinct, hcollects.marker,
        hcollects.nonempty⟩, hdeadline, hgathers.arrival, hgathers.queued⟩
    · exact h.pending ts found ((lookup_insert_ne heq).symm.trans hfound)
  · intro unit hunit pkt hqueued
    obtain ⟨found, hfound, hmem⟩ := h.arrived unit hunit pkt hqueued
    by_cases heq : key ssrc unit.ts = k
    · subst heq
      obtain rfl := some_inj.mp (hfind.symm.trans hfound)
      exact ⟨_, lookup_insert _, hmem⟩
    · exact ⟨found, (lookup_insert_ne heq).trans hfound, hmem⟩
  · intro other hsome
    by_cases heq : other = k
    · subst heq
      exact h.others other (by rw [hfind]; rfl)
    · rw [RtpAssembler.setDeadline, lookup_insert_ne heq] at hsome
      exact h.others other hsome

theorem armDeadline (hfind : state.groups.lookup k = some group) (hnow : start ≤ now) :
    Progress ssrc start old foreign ops anchor done rest (state.armDeadline k group now) := by
  unfold RtpAssembler.armDeadline
  split
  · have hset := h.setDeadline (now + avcRepairWaitNs) hfind (.inr (by omega))
    exact hset.regroup (List.Subset.refl ops) ⟨hset.keyed.keyed, hset.keyed.listed⟩ rfl rfl rfl
      rfl hset.pending hset.arrived hset.others
  · exact h

theorem frame (hframe : Frame ssrc state next) (hkeyed : WellKeyed next)
    (hcodec : next.codec = state.codec) :
    Progress ssrc start old foreign ops anchor done rest next where
  keyed := hkeyed
  codec := hcodec.trans h.codec
  anchored := hframe.anchor.trans h.anchored
  numbered := h.numbered
  short := h.short
  distinct := h.distinct
  waiting unit hunit := (hframe.flushed unit.ts).trans (h.waiting unit hunit)
  closed unit hunit := by
    obtain ⟨flushedAt, hflushed, hstart⟩ := h.closed unit hunit
    exact ⟨flushedAt, (hframe.flushed unit.ts).trans hflushed, hstart⟩
  pending ts group hfind := h.pending ts group ((hframe.groups ts).symm.trans hfind)
  arrived unit hunit pkt hqueued := by
    obtain ⟨group, hfind, hmem⟩ := h.arrived unit hunit pkt hqueued
    exact ⟨group, (hframe.groups unit.ts).trans hfind, hmem⟩
  events := by
    obtain ⟨fresh, hfresh, hdelivers, hforeign⟩ := h.events
    obtain ⟨late, hlate, hother⟩ := hframe.events
    refine ⟨fresh ++ late, by rw [hlate, hfresh, append_assoc], ?_, ?_⟩
    · have hnone : eventsOf ssrc late = [] := by
        simpa [eventsOf, filter_eq_nil_iff] using fun event hevent => (hother event hevent).1
      unfold eventsOf at hnone hdelivers ⊢
      rw [filter_append, hnone, append_nil]
      exact hdelivers
    · intro event hevent
      rcases mem_append.mp hevent with hmem | hmem
      · exact hforeign event hmem
      · obtain ⟨-, k, hsome, hssrc⟩ := hother event hmem
        rw [← hssrc]
        exact h.others k hsome
  others k hsome := h.others k (hframe.pending k hsome)

theorem prune (hnow : now < start + avcRepairWaitNs) :
    Progress ssrc start old foreign ops anchor done rest
      { state with
        recentlyFlushed := state.recentlyFlushed.keepIf fun flushedAt =>
          now - flushedAt ≤ flushedDedupTtlNs } :=
  { h with
    keyed := ⟨h.keyed.keyed, h.keyed.listed⟩
    waiting := by
      intro unit hunit
      rw [AssocMap.lookup_keepIf, h.waiting unit hunit]
      rfl
    closed := by
      intro unit hunit
      obtain ⟨flushedAt, hflushed, hstart⟩ := h.closed unit hunit
      refine ⟨flushedAt, ?_, hstart⟩
      rw [AssocMap.lookup_keepIf, hflushed, filter_some, if_pos]
      unfold avcRepairWaitNs at hnow
      unfold flushedDedupTtlNs
      exact decide_eq_true (by omega) }

theorem live (hnow : now < start + avcRepairWaitNs)
    (hfind : state.groups.lookup (key ssrc ts) = some group) : Live now group := by
  obtain ⟨unit, -, -, hgathers⟩ := h.pending ts group hfind
  have harrival := hgathers.arrival
  refine ⟨hgathers.deadline.imp id fun hlater => by omega, ?_⟩
  unfold avcRepairWaitNs at hnow
  unfold pendingGroupTtlNs
  omega

theorem evictStale (hnow : now < start + avcRepairWaitNs) (hready : ¬ Ready ssrc rest state) :
    Progress ssrc start old foreign ops anchor done rest (state.evictStale now) ∧
      ¬ Ready ssrc rest (state.evictStale now) := by
  have hlive : ∀ ts group, state.groups.lookup (key ssrc ts) = some group → Live now group :=
    fun ts group hfind => h.live hnow hfind
  obtain ⟨middle, hframe, hevict⟩ := evictStale_frame now h.keyed hlive
  have hchanges : Changes state (state.evictStale now) := changes_step state (.evict now)
  have hkeyed := hchanges.wellKeyed h.keyed
  have hcodec := hchanges.codec
  rw [hevict] at hkeyed hcodec ⊢
  refine ⟨(h.frame hframe ⟨hkeyed.keyed, hkeyed.listed⟩ hcodec).prune hnow, ?_⟩
  rintro ⟨unit, after, group, hrest, hfind, hfull⟩
  exact hready ⟨unit, after, group, hrest, (hframe.groups unit.ts).symm.trans hfind, hfull⟩

theorem unit_packet_eq (hunit : unit ∈ rest) (hleft : left ∈ unit.packets)
    (hright : right ∈ unit.packets) (hseq : left.1 = right.1) : left = right := by
  obtain ⟨before, after, hrest⟩ := append_of_mem hunit
  have hnumbered := h.numbered
  have hshort := h.short
  rw [hrest] at hnumbered hshort
  rw [packetCount_append, packetCount_cons] at hshort
  rw [hnumbered.unit.2] at hleft hright
  refine Prod.ext hseq ?_
  rw [marker_unitPackets (by omega) hleft, marker_unitPackets (by omega) hright, hseq]

theorem gathers_addPacket (hunit : unit ∈ rest) (hpkt : pkt.view ∈ unit.packets)
    (hnow : start ≤ now) :
    Gathers ssrc start (ops ++ [.queue ssrc unit.ts pkt now]) unit
        (addPacket (state.findOrCreate ssrc unit.ts now) pkt) ∧
      pkt.view ∈ (addPacket (state.findOrCreate ssrc unit.ts now) pkt).pkts.map
        GroupPacket.view ∧
      ∀ group, state.groups.lookup (key ssrc unit.ts) = some group → ∀ view,
        view ∈ group.pkts.map GroupPacket.view →
        view ∈ (addPacket (state.findOrCreate ssrc unit.ts now) pkt).pkts.map
          GroupPacket.view := by
  have hsub : ops ⊆ ops ++ [.queue ssrc unit.ts pkt now] := subset_append_left _ _
  have hnew : Queued ssrc (ops ++ [.queue ssrc unit.ts pkt now]) unit.ts pkt :=
    ⟨now, mem_append_right _ (mem_singleton.mpr rfl)⟩
  unfold findOrCreate
  cases hfind : state.groups.lookup (key ssrc unit.ts) with
  | none =>
    refine ⟨⟨⟨?_, ?_, ?_, ?_⟩, .inl rfl, hnow, ?_⟩, ?_, by simp⟩ <;>
      simp [addPacket, hpkt, hnew]
  | some group =>
    have hgathers := (h.gathers hunit hfind).mono hsub
    have hcollects := hgathers.collects
    have hdistinct := addPacket_distinct pkt hcollects.distinct
    simp only [getD_some]
    unfold addPacket at hdistinct ⊢
    split at hdistinct
    · rename_i hdup
      rw [if_pos hdup]
      refine ⟨hgathers, ?_, ?_⟩
      · -- the stored packet with this number is the same packet of the unit
        obtain ⟨stored, hstored, hseq⟩ := any_eq_true.mp hdup
        have hsame := h.unit_packet_eq hunit (hcollects.sent stored hstored) hpkt
          (by simpa [GroupPacket.view] using hseq)
        exact mem_map.mpr ⟨stored, hstored, hsame⟩
      · rintro _ hgroup view hview
        obtain rfl := some_inj.mp hgroup
        exact hview
    · rename_i hfresh
      rw [if_neg hfresh]
      refine ⟨⟨⟨?_, hdistinct, ?_, ?_⟩, hgathers.deadline, hgathers.arrival, ?_⟩, ?_, ?_⟩
      · intro other hother
        rcases mem_append.mp hother with hold | hlast
        · exact hcollects.sent other hold
        · rwa [mem_singleton.mp hlast]
      · simp [hcollects.marker]
      · simp
      · intro other hother
        rcases mem_append.mp hother with hold | hlast
        · exact hgathers.queued other hold
        · rwa [mem_singleton.mp hlast]
      · simp
      · rintro _ hgroup view hview
        obtain rfl := some_inj.mp hgroup
        rw [map_append]
        exact mem_append_left _ hview

theorem storePacket (hunit : unit ∈ rest) (hpkt : pkt.view ∈ unit.packets) (hnow : start ≤ now) :
    Progress ssrc start old foreign (ops ++ [.queue ssrc unit.ts pkt now]) anchor done rest
      (state.storePacket ssrc unit.ts pkt now) := by
  have hsub : ops ⊆ ops ++ [.queue ssrc unit.ts pkt now] := subset_append_left _ _
  obtain ⟨hgathers, hmem, hkept⟩ := h.gathers_addPacket hunit hpkt hnow
  have hlookup := storePacket_lookup state ssrc unit.ts pkt now
  have hframe : ∀ k, k ≠ key ssrc unit.ts →
      (state.storePacket ssrc unit.ts pkt now).groups.lookup k = state.groups.lookup k :=
    fun k hne => lookup_insert_ne hne
  refine h.regroup hsub (h.keyed.storePacket ssrc unit.ts pkt now) rfl rfl rfl rfl ?_ ?_ ?_
  · intro ts group hfind
    by_cases heq : key ssrc ts = key ssrc unit.ts
    · rw [heq, hlookup] at hfind
      obtain rfl := some_inj.mp hfind
      exact ⟨unit, hunit, (congrArg Prod.snd heq).symm, hgathers⟩
    · obtain ⟨owner, howner, hts, hheld⟩ := h.pending ts group ((hframe _ heq).symm.trans hfind)
      exact ⟨owner, howner, hts, hheld.mono hsub⟩
  · intro owner howner other hqueued
    obtain ⟨time, htime⟩ := hqueued
    rcases mem_append.mp htime with hold | hlast
    · obtain ⟨group, hfind, hview⟩ := h.arrived owner howner other ⟨time, hold⟩
      by_cases heq : key ssrc owner.ts = key ssrc unit.ts
      · rw [heq] at hfind ⊢
        exact ⟨_, hlookup, hkept group hfind _ hview⟩
      · exact ⟨group, (hframe _ heq).trans hfind, hview⟩
    · obtain ⟨-, hts, rfl, -⟩ := AssemblerOp.queue.inj (mem_singleton.mp hlast)
      rw [hts]
      exact ⟨_, hlookup, hmem⟩
  · intro k hsome
    by_cases heq : k = key ssrc unit.ts
    · exact .inl (congrArg Prod.fst heq)
    · rw [hframe k heq] at hsome
      exact h.others k hsome

theorem ts_ne_of_done (hearly : early ∈ done) (hlate : late ∈ rest) : early.ts ≠ late.ts := by
  have hdistinct := h.distinct
  rw [map_append] at hdistinct
  exact (nodup_append.mp hdistinct).2.2 _ (mem_map_of_mem hearly) _
    (mem_map_of_mem hlate)

end

theorem lastMarker_complete
    (h : Progress ssrc start old foreign ops anchor done (unit :: after) state)
    (hcollects : Collects unit.packets group)
    (hcomplete : groupComplete (some anchor) group (sortedPackets group.pkts) = true) :
    RtpAssembler.lastMarker (sortedPackets group.pkts) =
      some (anchor + UInt16.ofNat unit.packets.length) := by
  obtain ⟨-, back, -, hback, -, hmarked, -, -⟩ := groupComplete_iff.mp hcomplete
  have hshort := h.short
  rw [packetCount_cons] at hshort
  have hmem := hcollects.sent back
    ((sortedPackets_perm group.pkts).mem_iff.mp (mem_of_getLast? hback))
  rw [h.numbered.2.1] at hmem
  have hmarker := marker_unitPackets (by omega) hmem
  rw [lastMarker_of_marked hback hmarked, some_inj]
  simpa [GroupPacket.view, hmarked] using hmarker

theorem delivers_flush (h : Progress ssrc start old foreign ops anchor done (unit :: after) state)
    (hfind : state.groups.lookup (key ssrc unit.ts) = some group)
    (hcomplete : groupComplete (some anchor) group (sortedPackets group.pkts) = true) :
    Delivers ssrc ops unit (.flush (flushedGroup state.pool group (sortedPackets group.pkts))) := by
  obtain ⟨first, later, hrest, -, hgathers, hpackets⟩ := h.complete_head hfind hcomplete
  obtain ⟨rfl, -⟩ := cons_eq_cons.mp hrest
  obtain ⟨-, -, -, -, -, -, hgap, -⟩ := groupComplete_iff.mp hcomplete
  have hkey := h.keyed.keyed _ group hfind
  refine ⟨_, rfl, congrArg Prod.fst hkey, congrArg Prod.snd hkey, hpackets, hgap, ?_⟩
  exact fun pkt hpkt => hgathers.queued pkt ((sortedPackets_perm group.pkts).mem_iff.mp hpkt)

theorem flushGroup (h : Progress ssrc start old foreign ops anchor done (unit :: after) state)
    (hfind : state.groups.lookup (key ssrc unit.ts) = some group)
    (hcomplete : groupComplete (some anchor) group (sortedPackets group.pkts) = true)
    (hnow : start ≤ now) :
    Progress ssrc start old foreign ops (anchor + UInt16.ofNat unit.packets.length)
      (done ++ [unit]) after (state.flushGroup (key ssrc unit.ts) now) := by
  have hgathers := h.gathers mem_cons_self hfind
  have hlast := h.lastMarker_complete hgathers.collects hcomplete
  have hkeyed := h.keyed.flushGroup (key ssrc unit.ts) now
  have hlater : ∀ later ∈ after, key ssrc later.ts ≠ key ssrc unit.ts := by
    intro later hlater
    have hdistinct := h.distinct
    rw [map_append, map_cons] at hdistinct
    refine key_ts_ne fun heq => (nodup_cons.mp hdistinct.of_append_right).1 ?_
    exact heq ▸ mem_map_of_mem hlater
  have hshort := h.short
  rw [packetCount_cons] at hshort
  rw [flushGroup_eq now hfind] at hkeyed ⊢
  exact {
    keyed := hkeyed
    codec := h.codec
    anchored := by
      unfold anchorAfterFlush
      rw [hlast, h.keyed.ssrc hfind]
      exact lookup_insert _
    numbered := h.numbered.2.2
    short := by omega
    distinct := by simpa using h.distinct
    waiting := fun later hmem => by
      rw [lookup_insert_ne (hlater later hmem)]
      exact h.waiting later (mem_cons_of_mem _ hmem)
    closed := fun flushed hflushed => by
      rcases mem_append.mp hflushed with hearlier | hsame
      · obtain ⟨flushedAt, hlookup, hstart⟩ := h.closed flushed hearlier
        have hne := h.ts_ne_of_done hearlier mem_cons_self
        exact ⟨flushedAt, (lookup_insert_ne (key_ts_ne hne)).trans hlookup, hstart⟩
      · rw [mem_singleton.mp hsame]
        exact ⟨now, lookup_insert _, hnow⟩
    pending := fun ts found hfound => by
      have hold := lookup_erase_some hfound
      obtain ⟨owner, howner, hts, hheld⟩ := h.pending ts found hold
      rcases mem_cons.mp howner with heq | hmem
      · rw [← hts, heq, lookup_erase] at hfound
        cases hfound
      · exact ⟨owner, hmem, hts, hheld⟩
    arrived := fun later hmem pkt hqueued => by
      obtain ⟨found, hfound, hview⟩ := h.arrived later (mem_cons_of_mem _ hmem) pkt hqueued
      exact ⟨found, (lookup_erase_ne (hlater later hmem)).trans hfound, hview⟩
    events := by
      obtain ⟨fresh, hfresh, hdelivers, hforeign⟩ := h.events
      have hevent := h.delivers_flush hfind hcomplete
      have hssrc : (Event.flush (flushedGroup state.pool group
          (sortedPackets group.pkts))).ssrc = ssrc := h.keyed.ssrc hfind
      refine ⟨fresh ++ [_], by rw [hfresh, append_assoc], ?_, ?_⟩
      · rw [eventsOf_append, if_pos hssrc]
        exact rel_append hdelivers (.cons hevent .nil)
      · intro event hmem
        rcases mem_append.mp hmem with hearlier | hsame
        · exact hforeign event hearlier
        · rw [mem_singleton.mp hsame]
          exact .inl hssrc
    others := fun k hsome => by
      obtain ⟨found, hfound⟩ := isSome_iff_exists.mp hsome
      exact h.others k (by rw [lookup_erase_some hfound]; rfl) }

section

variable (h : Progress ssrc start old foreign ops anchor done rest state)
include h

/-- Any group that passes the completeness test is the next unit; flushing it
makes progress. -/
theorem flushComplete (hfind : state.groups.lookup k = some group) (hssrc : group.ssrc = ssrc)
    (hcomplete : groupComplete (state.lastMarkerSeq.lookup group.ssrc) group
      (sortedPackets group.pkts) = true) (hnow : start ≤ now) :
    ∃ next flushed waiting, flushed ++ waiting = done ++ rest ∧
      Progress ssrc start old foreign ops next flushed waiting
        ((state.setDeadline k group 0).flushGroup k now) := by
  obtain rfl : key ssrc group.ts = k := hssrc ▸ h.keyed.keyed k group hfind
  rw [hssrc, h.anchored] at hcomplete
  obtain ⟨unit, after, rfl, hts, -, -⟩ := h.complete_head hfind hcomplete
  have hset := h.setDeadline 0 hfind (.inl rfl)
  rw [← hts] at hset ⊢
  exact ⟨_, done ++ [unit], after, by simp,
    hset.flushGroup (lookup_insert _) hcomplete hnow⟩

theorem flushReady (hnow : start ≤ now) :
    Settled ssrc start old foreign ops (done ++ rest) (state.flushReady ssrc now) := by
  induction state using RtpAssembler.flushReady.induct ssrc now generalizing anchor done rest with
  | case1 state hkeys =>
    rw [flushReady_eq, hkeys]
    refine ⟨anchor, done, rest, rfl, h, fun hready => ?_⟩
    obtain ⟨_, _, _, tail, -, -, -, hhead⟩ := h.ready_head hready
    rw [hkeys] at hhead
    cases hhead
  | case2 state k tail hkeys hnone =>
    have hmem : k ∈ state.orderedKeys ssrc := by rw [hkeys]; exact mem_cons_self
    obtain ⟨-, group, hfind, -⟩ := mem_orderedKeys.mp hmem
    rw [hfind] at hnone
    cases hnone
  | case3 state k tail hkeys group hfind hcomplete ih =>
    have hmem : k ∈ state.orderedKeys ssrc := by rw [hkeys]; exact mem_cons_self
    obtain ⟨-, found, hfound, hssrc⟩ := mem_orderedKeys.mp hmem
    obtain rfl := some_inj.mp (hfound.symm.trans hfind)
    obtain ⟨next, flushed, waiting, hsplit, hprogress⟩ :=
      h.flushComplete hfind hssrc hcomplete hnow
    rw [flushReady_eq, hkeys]
    simp only [hfind, hcomplete, ↓reduceIte]
    rw [← hsplit]
    exact ih hprogress
  | case4 state k tail hkeys group hfind hcomplete =>
    rw [flushReady_eq, hkeys]
    simp only [hfind, hcomplete]
    refine ⟨anchor, done, rest, rfl, h.armDeadline hfind hnow, fun hready => ?_⟩
    obtain ⟨unit, after, found, rest, -, hfound, hdone, hhead⟩ :=
      h.ready_head (armDeadline_ready now hfind hready)
    rw [hkeys] at hhead
    obtain ⟨rfl, -⟩ := cons_eq_cons.mp hhead
    obtain rfl := some_inj.mp (hfound.symm.trans hfind)
    rw [h.keyed.ssrc hfind] at hcomplete
    exact hcomplete (h.anchored ▸ hdone)

theorem armMissingMarker (hnow : start ≤ now) (k : Key) :
    Progress ssrc start old foreign ops anchor done rest (armMissingMarker now state k) ∧
      (Ready ssrc rest (RtpAssembler.armMissingMarker now state k) → Ready ssrc rest state) := by
  unfold RtpAssembler.armMissingMarker
  split
  · exact ⟨h, id⟩
  · rename_i other hfind
    split
    · exact ⟨h, id⟩
    · exact ⟨h.armDeadline hfind hnow, armDeadline_ready now hfind⟩

theorem foldl_armMissingMarker (keys : List Key) (hnow : start ≤ now) :
    Progress ssrc start old foreign ops anchor done rest
        (keys.foldl (RtpAssembler.armMissingMarker now) state) ∧
      (Ready ssrc rest (keys.foldl (RtpAssembler.armMissingMarker now) state) →
        Ready ssrc rest state) := by
  induction keys generalizing state with
  | nil => exact ⟨h, id⟩
  | cons head tail ih =>
    obtain ⟨hhead, hback⟩ := h.armMissingMarker hnow head
    obtain ⟨htail, hback'⟩ := ih hhead
    exact ⟨htail, fun hready => hback (hback' hready)⟩

theorem queueAvc (hfind : state.groups.lookup (key ssrc unit.ts) = some group) (hnow : start ≤ now)
    (hown : Ready ssrc rest state → ∃ after, rest = unit :: after) :
    Settled ssrc start old foreign ops (done ++ rest)
      (state.queueAvc (key ssrc unit.ts) group now) := by
  have hssrc : group.ssrc = ssrc := h.keyed.ssrc hfind
  -- a ready unit is this one, so it is complete and nothing stands in front of it
  have hready : Ready ssrc rest state →
      groupComplete (some anchor) group (sortedPackets group.pkts) = true ∧
        (state.orderedKeys group.ssrc).takeWhile (· ≠ key ssrc unit.ts) = [] := by
    intro hready
    obtain ⟨after, hrest⟩ := hown hready
    obtain ⟨first, later, found, tail, hfirst, hfound, hcomplete, hhead⟩ := h.ready_head hready
    obtain ⟨rfl, -⟩ := cons_eq_cons.mp (hrest.symm.trans hfirst)
    obtain rfl := some_inj.mp (hfound.symm.trans hfind)
    refine ⟨hcomplete, ?_⟩
    rw [hssrc, hhead]
    exact takeWhile_cons_of_neg (by simp)
  unfold RtpAssembler.queueAvc
  dsimp only
  generalize hearlier : (state.orderedKeys group.ssrc).takeWhile (· ≠ key ssrc unit.ts) = earlier
    at hready ⊢
  have hnot : key ssrc unit.ts ∉ earlier := hearlier ▸ not_mem_takeWhile_ne _ _
  have hfound := (foldl_armMissingMarker_lookup earlier state now hnot).trans hfind
  obtain ⟨harmed, hback⟩ := h.foldl_armMissingMarker earlier hnow
  generalize earlier.foldl (RtpAssembler.armMissingMarker now) state = armed at *
  split
  · rename_i hblocked
    refine ⟨anchor, done, rest, rfl, harmed, fun hlate => ?_⟩
    rw [(hready (hback hlate)).2] at hblocked
    cases hblocked
  · split
    · rename_i hcomplete
      obtain ⟨next, flushed, waiting, hsplit, hprogress⟩ :=
        harmed.flushComplete hfound hssrc hcomplete hnow
      rw [← hsplit, hssrc]
      exact hprogress.flushReady hnow
    · rename_i hincomplete
      refine ⟨anchor, done, rest, rfl, harmed.armDeadline hfound hnow, fun hlate => ?_⟩
      have hcomplete := (hready (hback (armDeadline_ready now hfound hlate))).1
      rw [hssrc, harmed.anchored] at hincomplete
      exact hincomplete hcomplete

theorem queuePacket_done (hready : ¬ Ready ssrc rest state) (hunit : unit ∈ done)
    (pkt : GroupPacket) (now : Int) :
    Settled ssrc start old foreign (ops ++ [.queue ssrc unit.ts pkt now]) (done ++ rest)
      (state.queuePacket ssrc unit.ts pkt now) := by
  obtain ⟨flushedAt, hflushed, -⟩ := h.closed unit hunit
  unfold queuePacket
  rw [if_pos (by rw [hflushed]; rfl)]
  refine ⟨anchor, done, rest, rfl,
    (h.remember (subset_append_left _ _) ?_).release pkt.slot, hready⟩
  rintro later hlater other ⟨time, hmem⟩
  rcases mem_append.mp hmem with hold | hlast
  · exact ⟨time, hold⟩
  · obtain ⟨-, hts, -, -⟩ := AssemblerOp.queue.inj (mem_singleton.mp hlast)
    exact absurd hts.symm (h.ts_ne_of_done hunit hlater)

theorem queuePacket_rest (hready : ¬ Ready ssrc rest state) (hunit : unit ∈ rest)
    (hpkt : pkt.view ∈ unit.packets) (hnow : start ≤ now) :
    Settled ssrc start old foreign (ops ++ [.queue ssrc unit.ts pkt now]) (done ++ rest)
      (state.queuePacket ssrc unit.ts pkt now) := by
  have hstored := h.storePacket hunit hpkt hnow
  have hlookup := storePacket_lookup state ssrc unit.ts pkt now
  have hown : Ready ssrc rest (state.storePacket ssrc unit.ts pkt now) →
      ∃ after, rest = unit :: after := by
    intro hstoredReady
    obtain ⟨first, after, rfl, hts⟩ := ready_storePacket hready hstoredReady
    have hdistinct := h.distinct
    rw [map_append] at hdistinct
    exact ⟨after, by rw [inj_on_of_nodup_map hdistinct.of_append_right mem_cons_self
      hunit hts]⟩
  unfold queuePacket
  rw [if_neg (by rw [h.waiting unit hunit]; exact Bool.false_ne_true)]
  dsimp only
  split
  · rename_i hmarker
    refine ⟨anchor, done, rest, rfl, hstored, fun hstoredReady => ?_⟩
    obtain ⟨after, hrest⟩ := hown hstoredReady
    obtain ⟨first, later, group, -, hfirst, hfind, hcomplete, -⟩ := hstored.ready_head hstoredReady
    obtain ⟨rfl, -⟩ := cons_eq_cons.mp (hrest.symm.trans hfirst)
    obtain rfl := some_inj.mp (hlookup.symm.trans hfind)
    obtain ⟨-, -, -, -, hmarked, -⟩ := groupComplete_iff.mp hcomplete
    simp [hmarked] at hmarker
  · rw [if_neg (by simp [h.codec])]
    exact hstored.queueAvc hlookup hnow hown

end

end Progress

def Arrival (ssrc : UInt32) (units : List AccessUnit) : AssemblerOp → Prop
  | .queue source ts pkt _ =>
      source = ssrc ∧ ∃ unit ∈ units, unit.ts = ts ∧ pkt.view ∈ unit.packets
  | .evict _ => True

theorem Settled.step (h : Settled ssrc start old foreign ops units state)
    (harrival : Arrival ssrc units op) (hlow : start ≤ op.time)
    (hhigh : op.time < start + avcRepairWaitNs) :
    Settled ssrc start old foreign (ops ++ [op]) units (state.step op) := by
  obtain ⟨anchor, done, rest, rfl, hprogress, hready⟩ := h
  cases op with
  | queue source ts pkt now =>
    obtain ⟨rfl, unit, hunit, rfl, hpkt⟩ := harrival
    rcases mem_append.mp hunit with hdone | hrest
    · exact hprogress.queuePacket_done hready hdone pkt now
    · exact hprogress.queuePacket_rest hready hrest hpkt hlow
  | evict now =>
    obtain ⟨hevicted, hwaiting⟩ := hprogress.evictStale hhigh hready
    refine ⟨anchor, done, rest, rfl, hevicted.remember (subset_append_left _ _) ?_, hwaiting⟩
    rintro unit - pkt ⟨time, hmem⟩
    exact ⟨time, by simpa using hmem⟩

theorem Settled.run (calls : List AssemblerOp) (h : Settled ssrc start old foreign ops units state)
    (harrivals : ∀ op ∈ calls, Arrival ssrc units op)
    (hwindow : ∀ op ∈ calls, start ≤ op.time ∧ op.time < start + avcRepairWaitNs) :
    Settled ssrc start old foreign (ops ++ calls) units (state.run calls) := by
  induction calls generalizing ops state with
  | nil => simpa [RtpAssembler.run] using h
  | cons op calls ih =>
    obtain ⟨harrival, hlater⟩ := forall_mem_cons.mp harrivals
    obtain ⟨⟨hlow, hhigh⟩, htimes⟩ := forall_mem_cons.mp hwindow
    have hnext := ih (h.step harrival hlow hhigh) hlater htimes
    rwa [append_assoc] at hnext

end

/-- All packets of consecutively numbered access units arrive on an idle SSRC,
in any order and with any repetitions, inside one repair wait. -/
structure LossFree (ssrc : UInt32) (anchor : UInt16) (units : List AccessUnit) (start : Int)
    (state : RtpAssembler) (ops : List AssemblerOp) : Prop where
  idle : ∀ k group, state.groups.lookup k = some group → group.ssrc ≠ ssrc
  anchored : state.lastMarkerSeq.lookup ssrc = some anchor
  numbered : Numbered anchor units
  short : packetCount units < 0x8000
  distinct : (units.map AccessUnit.ts).Nodup
  unflushed : ∀ unit ∈ units, state.recentlyFlushed.lookup (key ssrc unit.ts) = none
  arrivals : ∀ op ∈ ops, Arrival ssrc units op
  lossless : ∀ unit ∈ units, ∀ packet ∈ unit.packets,
    ∃ pkt, pkt.view = packet ∧ Queued ssrc ops unit.ts pkt
  window : ∀ op ∈ ops, start ≤ op.time ∧ op.time < start + avcRepairWaitNs

theorem LossFree.settled (h : LossFree ssrc anchor units start state ops) (hkeyed : WellKeyed state)
    (hcodec : state.codec = .avc) :
    Settled ssrc start state.events
      (fun source => ∃ k group, state.groups.lookup k = some group ∧ group.ssrc = source)
      [] units state := by
  have hnone : ∀ ts group, state.groups.lookup (key ssrc ts) ≠ some group := fun ts group hfind =>
    h.idle _ group hfind (hkeyed.ssrc hfind)
  refine ⟨anchor, [], units, rfl, ?_, ?_⟩
  · exact {
      keyed := hkeyed
      codec := hcodec
      anchored := h.anchored
      numbered := h.numbered
      short := h.short.le
      distinct := h.distinct
      waiting := h.unflushed
      closed := fun unit hunit => absurd hunit not_mem_nil
      pending := fun ts group hfind => absurd hfind (hnone ts group)
      arrived := fun unit _ pkt ⟨now, hmem⟩ => absurd hmem not_mem_nil
      events := ⟨[], (append_nil _).symm, .nil, by simp⟩
      others := fun k hsome => by
        obtain ⟨group, hfind⟩ := isSome_iff_exists.mp hsome
        exact .inr ⟨k, group, hfind, hkeyed.ssrc hfind⟩ }
  · rintro ⟨unit, after, group, -, hfind, -⟩
    exact hnone unit.ts group hfind

/-- Loss-free reordering does not show: the SSRC sees one complete flush per
access unit, in sending order, and no drop.  Any other new event closes a group
that another SSRC already had pending. -/
theorem reordering_invisible (pool : PacketPool) (history ops : List AssemblerOp) (ssrc : UInt32)
    (anchor : UInt16) (units : List AccessUnit) (start : Int)
    (h : LossFree ssrc anchor units start ((new pool .avc).run history) ops) :
    ∃ fresh,
      (((new pool .avc).run history).run ops).events =
        ((new pool .avc).run history).events ++ fresh ∧
      List.Forall₂ (Delivers ssrc ops) units (eventsOf ssrc fresh) ∧
      ∀ event ∈ fresh, event.ssrc ≠ ssrc → ∃ k group,
        ((new pool .avc).run history).groups.lookup k = some group ∧
          group.ssrc = event.ssrc := by
  have hhistory := changes_run (new pool .avc) history
  have hstart := h.settled (hhistory.wellKeyed (new_wellKeyed pool .avc)) hhistory.codec
  obtain ⟨last, done, rest, hunits, hprogress, hwaiting⟩ :=
    hstart.run ops h.arrivals h.window
  rw [nil_append] at hprogress
  -- nothing is missing at the end, so a first unit left over would be ready
  have hrest : rest = [] := by
    cases rest with
    | nil => rfl
    | cons unit after =>
      have hmem : unit ∈ units := by rw [← hunits]; simp
      obtain ⟨first, packets, hpackets⟩ := exists_cons_of_ne_nil hprogress.numbered.1
      refine absurd ?_ hwaiting
      have hfound : ∀ packet ∈ unit.packets, ∃ group,
          (((new pool .avc).run history).run ops).groups.lookup (key ssrc unit.ts) = some group ∧
            packet ∈ group.pkts.map GroupPacket.view := by
        intro packet hpacket
        obtain ⟨pkt, rfl, hqueued⟩ := h.lossless unit hmem packet hpacket
        exact hprogress.arrived unit mem_cons_self pkt hqueued
      obtain ⟨group, hgroup, -⟩ := hfound first (by simp [hpackets])
      refine ⟨unit, after, group, rfl, hgroup, fun packet hpacket => ?_⟩
      obtain ⟨other, hother, hview⟩ := hfound packet hpacket
      rwa [some_inj.mp (hother.symm.trans hgroup)] at hview
  subst hrest
  rw [append_nil] at hunits
  obtain ⟨fresh, hfresh, hdelivers, hforeign⟩ := hprogress.events
  refine ⟨fresh, hfresh, hunits ▸ hdelivers, fun event hevent hne => ?_⟩
  exact (hforeign event hevent).resolve_left hne

def flushedOnce : List AssemblerOp := [.queue 7 1 ⟨65534, true, 0⟩ 0]

def swappedUnits : List AccessUnit := [⟨2, [(65535, false), (0, true)]⟩, ⟨3, [(1, true)]⟩]

def swappedArrivals : List AssemblerOp :=
  [.queue 7 3 ⟨1, true, 3⟩ 10, .evict 11, .queue 7 2 ⟨0, true, 2⟩ 12, .queue 7 2 ⟨0, true, 4⟩ 13,
    .queue 7 2 ⟨65535, false, 1⟩ 14]

theorem reordering_invisible_swappedUnits :
    LossFree 7 65534 swappedUnits 10 ((new blankPool .avc).run flushedOnce) swappedArrivals ∧
    ∃ fresh,
      (((new blankPool .avc).run flushedOnce).run swappedArrivals).events =
        ((new blankPool .avc).run flushedOnce).events ++ fresh ∧
      List.Forall₂ (Delivers 7 swappedArrivals) swappedUnits (eventsOf 7 fresh) := by
  have hidle : ((new blankPool .avc).run flushedOnce).groups = ∅ :=
    AList.ext (by decide +kernel)
  have hfree : LossFree 7 65534 swappedUnits 10 ((new blankPool .avc).run flushedOnce)
      swappedArrivals := by
    refine ⟨?_, by decide +kernel, ?_, by decide, by decide, by decide +kernel, ?_, ?_, by decide⟩
    · intro k group hfind
      rw [hidle, lookup_empty] at hfind
      cases hfind
    · exact ⟨by decide, by decide, by decide, by decide, trivial⟩
    · simp [swappedArrivals, swappedUnits, Arrival, GroupPacket.view]
    · intro unit hunit packet hpacket
      obtain rfl | rfl : unit = ⟨2, [(65535, false), (0, true)]⟩ ∨ unit = ⟨3, [(1, true)]⟩ := by
        simpa [swappedUnits] using hunit
      · obtain rfl | rfl : packet = (65535, false) ∨ packet = (0, true) := by simpa using hpacket
        · exact ⟨⟨65535, false, 1⟩, rfl, 14, by decide⟩
        · exact ⟨⟨0, true, 2⟩, rfl, 12, by decide⟩
      · obtain rfl : packet = (1, true) := by simpa using hpacket
        exact ⟨⟨1, true, 3⟩, rfl, 10, by decide⟩
  obtain ⟨fresh, hfresh, hdelivers, -⟩ :=
    reordering_invisible blankPool flushedOnce swappedArrivals 7 65534 swappedUnits 10 hfree
  exact ⟨hfree, fresh, hfresh, hdelivers⟩

end RtpAssembler

end Scshr.Media
