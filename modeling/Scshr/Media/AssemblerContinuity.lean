import Mathlib.Data.List.Chain
import Scshr.Media.AssemblerSteps

/-! Transport continuity of the AVC assembler.  The anchor of an SSRC is always
the last marker of its most recent flush or drop, so the completeness test ties
every flushed unit to the event in front of it. -/
namespace Scshr.Media

open Common Lib List AList

namespace Event

def ssrc : Event → UInt32
  | .flush group => group.ssrc
  | .drop group _ => group.ssrc

def lastMarker : Event → Option UInt16
  | .flush group => RtpAssembler.lastMarker group.packets
  | .drop _ sorted => RtpAssembler.lastMarker sorted

end Event

structure WholeUnit (group : FlushedGroup) : Prop where
  nonempty : group.packets ≠ []
  consecutive : group.packets.IsChain fun left right => right.seq = left.seq + 1
  marked : ∃ back, group.packets.getLast? = some back ∧ back.marker = true
  complete : group.incomplete = false

/-- The group starts right behind the last marker of the previous event, unless
that event was the drop of a group without a marker. -/
def Continues (previous : Event) (group : FlushedGroup) : Prop :=
  (∃ seq front, previous.lastMarker = some seq ∧ group.packets.head? = some front ∧
    front.seq = seq + 1) ∨
  ∃ dropped sorted, previous = .drop dropped sorted ∧ dropped.hadMarker = false

def eventsOf (ssrc : UInt32) (events : List Event) : List Event :=
  events.filter fun event => event.ssrc = ssrc

namespace RtpAssembler

variable {sorted : List GroupPacket} {group : Group} {state next : RtpAssembler}
  {groups : AssocMap Key Group} {k other : Key}

theorem hasGap_consecutive (hdistinct : (sorted.map GroupPacket.seq).Nodup)
    (hgap : hasGap sorted = false) : sorted.IsChain fun left right => right.seq = left.seq + 1 := by
  induction sorted with
  | nil => exact .nil
  | cons left rest ih =>
    cases rest with
    | nil => exact .singleton left
    | cons right rest =>
      unfold hasGap at hgap
      obtain ⟨hstep, hrest⟩ := Bool.or_eq_false_iff.mp hgap
      obtain ⟨hleft, hnodup⟩ := nodup_cons.mp hdistinct
      refine .cons_cons ?_ (ih hnodup hrest)
      have hne : right.seq.toNat ≠ left.seq.toNat := fun heq =>
        hleft (by simp [UInt16.toNat_inj.mp heq])
      -- a step of zero is excluded by distinctness, a step above one by the gap test
      have hle : ¬ right.seq - left.seq > 1 := by simpa using hstep
      rw [gt_iff_lt, UInt16.lt_iff_toNat_lt, UInt16.toNat_sub] at hle
      have hl := left.seq.toNat_lt
      have hr := right.seq.toNat_lt
      rw [← UInt16.toNat_inj, UInt16.toNat_add]
      simp only [UInt16.toNat_one] at hle ⊢
      omega

theorem lastMarker_of_marked (hback : sorted.getLast? = some back) (hmarker : back.marker = true) :
    lastMarker sorted = some back.seq := by
  rw [List.getLast?_eq_head?_reverse] at hback
  unfold lastMarker
  cases hreverse : sorted.reverse with
  | nil => simp [hreverse] at hback
  | cons head tail =>
    rw [hreverse, List.head?_cons, Option.some_inj] at hback
    rw [hback, List.find?_cons_of_pos hmarker, Option.map_some]

theorem groupComplete_iff :
    groupComplete anchor group sorted = true ↔
      ∃ front back, sorted.head? = some front ∧ sorted.getLast? = some back ∧
        group.hasMarker = true ∧ back.marker = true ∧ hasGap sorted = false ∧
        ∀ seq, anchor = some seq → front.seq = seq + 1 := by
  unfold groupComplete
  cases sorted.head? with
  | none => simp
  | some front =>
    cases sorted.getLast? with
    | none => simp
    | some back =>
      cases anchor with
      | none => simp [and_assoc]
      | some seq => simp [and_assoc]

theorem sortedPackets_perm (pkts : List GroupPacket) : (sortedPackets pkts).Perm pkts :=
  Circular.sort_perm GroupPacket.seq pkts

theorem sortedPackets_distinct (h : (pkts.map GroupPacket.seq).Nodup) :
    ((sortedPackets pkts).map GroupPacket.seq).Nodup :=
  ((sortedPackets_perm pkts).map GroupPacket.seq).nodup_iff.mpr h

theorem offset_add (h : (front - base).toNat + index < 0x10000) :
    (front + UInt16.ofNat index - base).toNat = (front - base).toNat + index := by
  have hbase := base.toNat_lt
  have hfront := front.toNat_lt
  simp only [UInt16.toNat_sub, UInt16.toNat_add, UInt16.toNat_ofNat'] at *
  omega

theorem offset_base (base : UInt16) (hshort : offset ≤ 0x7FFF) :
    (base + UInt16.ofNat offset - base).toNat = offset := by
  have hself : (base - base).toNat = 0 := by rw [UInt16.sub_self, UInt16.toNat_zero]
  rw [offset_add (by omega), hself, Nat.zero_add]

/-- Packets at distinct offsets from a base, none of them half the circle or more away, come
out in the order of their offsets, whatever the order of arrival. -/
theorem sortedPackets_by_offset (base : UInt16) (pkts : List GroupPacket) (offsets : List Nat)
    (hseq : pkts.map GroupPacket.seq = offsets.map fun offset => base + UInt16.ofNat offset)
    (hdistinct : offsets.Nodup) (hshort : ∀ offset ∈ offsets, offset ≤ 0x7FFF) :
    (sortedPackets pkts).Perm pkts ∧
      ∃ ordered : List Nat, ordered.Perm offsets ∧ ordered.Pairwise (· < ·) ∧
        (sortedPackets pkts).map GroupPacket.seq =
          ordered.map fun offset => base + UInt16.ofNat offset := by
  refine ⟨sortedPackets_perm pkts, ?_⟩
  have hoffsets : pkts.map (Circular.offset GroupPacket.seq base) = offsets := by
    calc pkts.map (Circular.offset GroupPacket.seq base)
        = (pkts.map GroupPacket.seq).map fun seq => (seq - base).toNat := by
          rw [map_map]
          rfl
      _ = offsets.map fun offset => (base + UInt16.ofNat offset - base).toNat := by
          rw [hseq, map_map]
          rfl
      _ = offsets.map id := map_congr_left fun offset hoffset =>
          offset_base base (hshort offset hoffset)
      _ = offsets := map_id offsets
  have hnodup : (pkts.map GroupPacket.seq).Nodup := by
    rw [hseq]
    apply List.Nodup.map_on _ hdistinct
    intro left hleft right hright heq
    rw [← offset_base base (hshort left hleft), heq, offset_base base (hshort right hright)]
  have hwithin : ∀ pkt ∈ pkts, Circular.offset GroupPacket.seq base pkt < 0x8000 := by
    intro pkt hpkt
    have hmem := mem_map_of_mem (f := Circular.offset GroupPacket.seq base) hpkt
    rw [hoffsets] at hmem
    exact Nat.lt_succ_of_le (hshort _ hmem)
  obtain ⟨sorted, hperm, hwindow⟩ := Circular.exists_window GroupPacket.seq base pkts hwithin hnodup
  have hsorted : sortedPackets pkts = sorted := hwindow.sort_eq hperm
  refine ⟨sorted.map (Circular.offset GroupPacket.seq base), ?_, ?_, ?_⟩
  · rw [← hoffsets]
    exact hperm.map _
  · exact pairwise_map.mpr hwindow.increasing
  · rw [hsorted, map_map]
    apply map_congr_left
    intro pkt _
    have hback : base + (pkt.seq - base) = pkt.seq := by
      rw [UInt16.add_comm, UInt16.sub_add_cancel]
    change pkt.seq = base + UInt16.ofNat (pkt.seq - base).toNat
    rw [UInt16.ofNat_toNat, hback]

/-- Three packets around the wrap, the middle one first. -/
theorem sortedPackets_by_offset_wrap :
    let pkts := [⟨0, false, 1⟩, ⟨0xFFFF, false, 2⟩, ⟨1, true, 3⟩]
    (sortedPackets pkts).Perm pkts ∧
      ∃ ordered : List Nat, ordered.Perm [1, 0, 2] ∧ ordered.Pairwise (· < ·) ∧
        (sortedPackets pkts).map GroupPacket.seq =
          ordered.map fun offset => 0xFFFF + UInt16.ofNat offset :=
  sortedPackets_by_offset 0xFFFF _ [1, 0, 2] (by decide) (by decide) (by decide)

theorem addPacket_distinct (pkt : GroupPacket) (h : (group.pkts.map GroupPacket.seq).Nodup) :
    ((addPacket group pkt).pkts.map GroupPacket.seq).Nodup := by
  unfold addPacket
  split
  · exact h
  · rename_i hnew
    rw [map_append, map_singleton, nodup_append]
    refine ⟨h, nodup_singleton _, ?_⟩
    simpa [any_eq_true] using hnew

structure Continuous (state : RtpAssembler) : Prop where
  codec : state.codec = .avc
  distinct : ∀ k group, state.groups.lookup k = some group →
    (group.pkts.map GroupPacket.seq).Nodup
  anchors : ∀ ssrc, state.lastMarkerSeq.lookup ssrc =
    (eventsOf ssrc state.events).getLast?.bind Event.lastMarker
  whole : ∀ group, .flush group ∈ state.events → WholeUnit group
  dropped : ∀ group sorted, .drop group sorted ∈ state.events →
    group.hadMarker = (lastMarker sorted).isSome
  linked : ∀ ssrc, (eventsOf ssrc state.events).IsChain fun previous next =>
    ∀ group, next = .flush group → Continues previous group

theorem new_continuous (pool : PacketPool) : Continuous (new pool .avc) where
  codec := rfl
  distinct k group hfind := by simp [new] at hfind
  anchors ssrc := rfl
  whole group hmem := by simp [new] at hmem
  dropped group sorted hmem := by simp [new] at hmem
  linked ssrc := .nil

theorem eventsOf_append (ssrc : UInt32) (events : List Event) (event : Event) :
    eventsOf ssrc (events ++ [event]) =
      if event.ssrc = ssrc then eventsOf ssrc events ++ [event] else eventsOf ssrc events := by
  unfold eventsOf
  rw [filter_append]
  split <;> simp [*]

theorem Continuous.record (h : Continuous state) (hcodec : next.codec = state.codec)
    (hgroups : ∀ k group, next.groups.lookup k = some group →
      (group.pkts.map GroupPacket.seq).Nodup) (hevents : next.events = state.events ++ [event])
    (hanchor : next.lastMarkerSeq.lookup event.ssrc = event.lastMarker)
    (hframe : ∀ ssrc, ssrc ≠ event.ssrc →
      next.lastMarkerSeq.lookup ssrc = state.lastMarkerSeq.lookup ssrc)
    (hflush : ∀ group, event = .flush group → WholeUnit group ∧
      ∀ seq, state.lastMarkerSeq.lookup event.ssrc = some seq →
        ∃ front, group.packets.head? = some front ∧ front.seq = seq + 1)
    (hdrop : ∀ group sorted, event = .drop group sorted →
      group.hadMarker = (RtpAssembler.lastMarker sorted).isSome) : Continuous next where
  codec := hcodec.trans h.codec
  distinct := hgroups
  anchors ssrc := by
    rw [hevents, eventsOf_append]
    split
    · rename_i heq
      rw [← heq, hanchor]
      simp
    · rename_i hne
      rw [hframe ssrc (Ne.symm hne), h.anchors]
  whole group hmem := by
    rw [hevents, mem_append, mem_singleton] at hmem
    rcases hmem with hold | hnew
    · exact h.whole group hold
    · exact (hflush group hnew.symm).1
  dropped group sorted hmem := by
    rw [hevents, mem_append, mem_singleton] at hmem
    rcases hmem with hold | hnew
    · exact h.dropped group sorted hold
    · exact hdrop group sorted hnew.symm
  linked ssrc := by
    rw [hevents, eventsOf_append]
    split
    · rename_i heq
      subst heq
      refine isChain_append.mpr ⟨h.linked _, .singleton event, ?_⟩
      intro previous hprevious last hlast group hgroup
      obtain rfl : event = last := by simpa using hlast
      have hanchors := h.anchors event.ssrc
      rw [Option.mem_def.mp hprevious, Option.bind_some] at hanchors
      cases hmarker : previous.lastMarker with
      | some seq =>
        obtain ⟨front, hfront, hseq⟩ := (hflush group hgroup).2 seq (hanchors.trans hmarker)
        exact .inl ⟨seq, front, hmarker, hfront, hseq⟩
      | none =>
        have hmem : previous ∈ state.events :=
          (mem_filter.mp (mem_of_getLast? hprevious)).1
        right
        cases previous with
        | flush flushed =>
          -- a flushed unit ends with a marker, so it always leaves an anchor
          obtain ⟨back, hback, hmarked⟩ := (h.whole flushed hmem).marked
          rw [Event.lastMarker, lastMarker_of_marked hback hmarked] at hmarker
          cases hmarker
        | drop dropped sorted =>
          refine ⟨dropped, sorted, rfl, ?_⟩
          rw [h.dropped dropped sorted hmem]
          rw [Event.lastMarker] at hmarker
          rw [hmarker, Option.isSome_none]
    · exact h.linked ssrc

theorem Continuous.quiet (h : Continuous state) (hcodec : next.codec = state.codec)
    (hgroups : ∀ k group, next.groups.lookup k = some group →
      (group.pkts.map GroupPacket.seq).Nodup) (hevents : next.events = state.events)
    (hanchor : next.lastMarkerSeq = state.lastMarkerSeq) : Continuous next where
  codec := hcodec.trans h.codec
  distinct := hgroups
  anchors ssrc := by rw [hanchor, hevents, h.anchors]
  whole := by rw [hevents]; exact h.whole
  dropped := by rw [hevents]; exact h.dropped
  linked := by rw [hevents]; exact h.linked

theorem lookup_erase_some (h : (groups.erase k).lookup other = some group) :
    groups.lookup other = some group := by
  by_cases heq : other = k
  · rw [heq, lookup_erase] at h
    cases h
  · rwa [lookup_erase_ne heq] at h

theorem lookup_insert_some (h : (groups.insert k value).lookup other = some group) :
    value = group ∨ groups.lookup other = some group := by
  by_cases heq : other = k
  · rw [heq, lookup_insert, Option.some_inj] at h
    exact .inl h
  · rw [lookup_insert_ne heq] at h
    exact .inr h

theorem Continuous.setDeadline (deadline : Int) (h : Continuous state)
    (hfind : state.groups.lookup k = some group) :
    Continuous (state.setDeadline k group deadline) := by
  refine h.quiet rfl (fun other found hfound => ?_) rfl rfl
  rcases lookup_insert_some hfound with heq | hold
  · rw [← heq]
    exact h.distinct k group hfind
  · exact h.distinct other found hold

theorem Continuous.armDeadline (now : Int) (h : Continuous state)
    (hfind : state.groups.lookup k = some group) : Continuous (state.armDeadline k group now) := by
  unfold RtpAssembler.armDeadline
  split
  · have hset := h.setDeadline (now + avcRepairWaitNs) hfind
    exact hset.quiet rfl hset.distinct rfl rfl
  · exact h

theorem Continuous.storePacket (ssrc ts : UInt32) (pkt : GroupPacket) (now : Int)
    (h : Continuous state) : Continuous (state.storePacket ssrc ts pkt now) := by
  refine h.quiet rfl (fun k group hfind => ?_) rfl rfl
  rcases lookup_insert_some hfind with heq | hold
  · rw [← heq]
    apply addPacket_distinct
    unfold findOrCreate
    cases hgroup : state.groups.lookup (key ssrc ts) with
    | none => exact nodup_nil
    | some existing => exact h.distinct _ existing hgroup
  · exact h.distinct k group hold

theorem flushGroup_eq (now : Int) (hfind : state.groups.lookup k = some group) :
    state.flushGroup k now =
      { state with
        groups := state.groups.erase k
        groupOrder := state.groupOrder.filter (· ≠ k)
        deadlineOrder := state.deadlineOrder.filter (· ≠ k)
        recentlyFlushed := state.recentlyFlushed.insert k now
        lastMarkerSeq :=
          anchorAfterFlush state.lastMarkerSeq group.ssrc (sortedPackets group.pkts)
        incompleteFlushed := state.incompleteFlushed +
          if (flushedGroup state.pool group (sortedPackets group.pkts)).incomplete then 1 else 0
        events := state.events ++
          [.flush (flushedGroup state.pool group (sortedPackets group.pkts))]
        pool := releaseGroup state.pool group.pkts } := by
  unfold flushGroup
  rw [hfind]

theorem Continuous.flushGroup (now : Int) (h : Continuous state)
    (hfind : state.groups.lookup k = some group)
    (hcomplete : groupComplete (state.lastMarkerSeq.lookup group.ssrc) group
      (sortedPackets group.pkts) = true) : Continuous (state.flushGroup k now) := by
  obtain ⟨front, back, hfront, hback, -, hmarked, hgap, hanchor⟩ := groupComplete_iff.mp hcomplete
  have hmarker := lastMarker_of_marked hback hmarked
  rw [flushGroup_eq now hfind]
  refine h.record rfl (fun other found hfound => h.distinct other found (lookup_erase_some hfound))
    rfl ?_ ?_ ?_ ?_
  · unfold anchorAfterFlush
    rw [hmarker]
    exact (lookup_insert _).trans hmarker.symm
  · intro ssrc hne
    unfold anchorAfterFlush
    rw [hmarker]
    exact lookup_insert_ne hne
  · intro flushed hflushed
    obtain rfl := Event.flush.inj hflushed
    refine ⟨⟨?_, ?_, ⟨back, hback, hmarked⟩, hgap⟩, fun seq hseq =>
      ⟨front, hfront, hanchor seq hseq⟩⟩
    · exact fun hnil => by simp [flushedGroup] at hnil; simp [hnil] at hfront
    · exact hasGap_consecutive (sortedPackets_distinct (h.distinct k group hfind)) hgap
  · intro dropped sorted hdropped
    cases hdropped

theorem anchorAfterDrop_lookup (anchors : AssocMap UInt32 UInt16) (ssrc : UInt32)
    (sorted : List GroupPacket) :
    (anchorAfterDrop anchors ssrc sorted).lookup ssrc = lastMarker sorted := by
  unfold anchorAfterDrop
  cases lastMarker sorted with
  | none => exact lookup_erase ssrc anchors
  | some seq => exact lookup_insert anchors

theorem anchorAfterDrop_lookup_ne (anchors : AssocMap UInt32 UInt16) {ssrc other : UInt32}
    (sorted : List GroupPacket) (hne : other ≠ ssrc) :
    (anchorAfterDrop anchors ssrc sorted).lookup other = anchors.lookup other := by
  unfold anchorAfterDrop
  cases lastMarker sorted with
  | none => exact lookup_erase_ne hne
  | some seq => exact lookup_insert_ne hne

theorem Continuous.dropGroup (reason : String) (now : Int) (h : Continuous state)
    (hfind : state.groups.lookup k = some group) :
    Continuous (dropGroup reason now (state, []) k).1 := by
  unfold RtpAssembler.dropGroup
  simp only [hfind]
  refine h.record rfl (fun other found hfound => h.distinct other found (lookup_erase_some hfound))
    rfl ?_ ?_ ?_ ?_
  · exact anchorAfterDrop_lookup _ _ _
  · exact fun ssrc hne => anchorAfterDrop_lookup_ne _ _ hne
  · intro flushed hflushed
    cases hflushed
  · intro dropped sorted hdropped
    cases hdropped
    rfl

theorem Change.continuous (hchange : Change state next) (h : Continuous state) :
    Continuous next := by
  cases hchange with
  | release slot => exact h.quiet rfl h.distinct rfl rfl
  | store ssrc ts pkt now hfresh => exact h.storePacket ssrc ts pkt now
  | arm k group now hfind => exact h.armDeadline now hfind
  | flushComplete k group now hfind hcomplete =>
    refine (h.setDeadline 0 hfind).flushGroup now (lookup_insert _) ?_
    exact hcomplete
  | flushMarked k group now hfind hcodec hmarker => exact absurd h.codec hcodec
  | drop k group reason now hfind => exact h.dropGroup reason now hfind
  | prune now => exact h.quiet rfl h.distinct rfl rfl

/-- Every flushed group of an AVC run is one whole access unit, and it starts
right behind the event of its SSRC in front of it. -/
theorem run_continuity (pool : PacketPool) (ops : List AssemblerOp) :
    let events := ((new pool .avc).run ops).events
    (∀ group, .flush group ∈ events → WholeUnit group) ∧
      ∀ ssrc before previous group after,
        eventsOf ssrc events = before ++ previous :: .flush group :: after →
          Continues previous group := by
  have hrun : Continuous ((new pool .avc).run ops) :=
    Changes.invariant (fun _ _ hchange => hchange.continuous) (changes_run _ ops)
      (new_continuous pool)
  refine ⟨hrun.whole, ?_⟩
  intro ssrc before previous group after hevents
  have hlinked := hrun.linked ssrc
  rw [hevents] at hlinked
  exact (isChain_append_cons_cons.mp hlinked).2.1 group rfl

end RtpAssembler

end Scshr.Media
