import Scshr.Media.AssemblerContinuity
import Mathlib.Data.Bool.AllAny

/-! How the transport anchor of an AVC stream moves.  A flush only ever moves it
forwards; a drop writes the last marker of the dropped group, whatever the anchor
is by then.  So the anchor of a run never moves backwards exactly when no eviction
drops a group that ends behind the anchor or behind a group dropped before it. -/
namespace Scshr.Media

open Common Lib List AList

/-- The new sequence number lies less than half the circle ahead of the old one. -/
def Forward (old new : UInt16) : Prop := 1 ≤ (new - old).toNat ∧ (new - old).toNat ≤ 0x7FFF

instance : DecidableRel Forward := fun _ _ => inferInstanceAs (Decidable (_ ∧ _))

/-- Two successive anchors of which the second, if it is another one, lies ahead.
A forgotten anchor allows anything. -/
def NotBehind : Option UInt16 → Option UInt16 → Prop
  | some old, some new => old = new ∨ Forward old new
  | _, _ => True

instance : DecidableRel NotBehind
  | some _, some _ => inferInstanceAs (Decidable (_ ∨ _))
  | some _, none => .isTrue trivial
  | none, some _ => .isTrue trivial
  | none, none => .isTrue trivial

/-- What `last_marker_seq_` of an SSRC was set to by its events, in order. -/
def anchorHistory (ssrc : UInt32) (events : List Event) : List (Option UInt16) :=
  (eventsOf ssrc events).map Event.lastMarker

theorem NotBehind.of_none (next : Option UInt16) : NotBehind none next := by
  cases next <;> exact trivial

theorem isChain_history_append (history added : List (Option UInt16)) :
    (history ++ added).IsChain NotBehind ↔
      history.IsChain NotBehind ∧ (history.getLast?.join :: added).IsChain NotBehind := by
  rw [isChain_append]
  apply and_congr_right
  intro _
  cases added with
  | nil => simp
  | cons next rest =>
    rw [isChain_cons_cons, and_comm]
    apply and_congr_left
    intro _
    cases hlast : history.getLast? with
    | none => simp [NotBehind.of_none]
    | some last => simp

namespace RtpAssembler

/-- The sequence numbers that matter for an SSRC: its anchor and those of its
pending packets. -/
def liveSeqs (state : RtpAssembler) (ssrc : UInt32) : List UInt16 :=
  (state.lastMarkerSeq.lookup ssrc).toList ++
    (state.groups.entries.filter fun entry => entry.2.ssrc = ssrc).flatMap fun entry =>
      entry.2.pkts.map GroupPacket.seq

def InWindow (ssrc : UInt32) (state : RtpAssembler) : Prop :=
  ∃ base : UInt16, ∀ seq ∈ state.liveSeqs ssrc, (seq - base).toNat < 0x8000

def entered (state : RtpAssembler) : AssemblerOp → RtpAssembler
  | .queue ssrc ts pkt now =>
      if (state.recentlyFlushed.lookup (key ssrc ts)).isSome then state
      else state.storePacket ssrc ts pkt now
  | .evict _ => state

def staleMarkers (ssrc : UInt32) : AssocMap Key Group → List Key → List (Option UInt16)
  | _, [] => []
  | groups, k :: rest =>
      match groups.lookup k with
      | none => staleMarkers ssrc groups rest
      | some group =>
          if group.ssrc = ssrc then
            lastMarker (sortedPackets group.pkts) :: staleMarkers ssrc (groups.erase k) rest
          else staleMarkers ssrc (groups.erase k) rest

/-- The keys `evict_stale` drops: expired repairs, then overdue markers. -/
def staleKeys (state : RtpAssembler) (now : Int) : List Key :=
  state.deadlineOrder.filter (state.repairExpired now) ++
    state.groupOrder.filter (state.markerExpired now)

/-- An eviction drops no group of the SSRC that ends behind the anchor or behind
a group it drops earlier. -/
def DropsInOrder (ssrc : UInt32) (state : RtpAssembler) : AssemblerOp → Prop
  | .queue _ _ _ _ => True
  | .evict now =>
      (state.lastMarkerSeq.lookup ssrc ::
        staleMarkers ssrc state.groups (state.staleKeys now)).IsChain NotBehind

variable {state next : RtpAssembler} {ssrc : UInt32} {seq base : UInt16}
  {sorted : List GroupPacket} {k : Key} {group : Group} {now : Int}

theorem mem_liveSeqs :
    seq ∈ state.liveSeqs ssrc ↔ state.lastMarkerSeq.lookup ssrc = some seq ∨
      ∃ k group pkt, state.groups.lookup k = some group ∧ group.ssrc = ssrc ∧
        pkt ∈ group.pkts ∧ pkt.seq = seq := by
  unfold liveSeqs
  rw [mem_append, Option.mem_toList, mem_flatMap]
  apply or_congr Iff.rfl
  constructor
  · rintro ⟨⟨k, group⟩, hentry, hseq⟩
    obtain ⟨hmem, hssrc⟩ := mem_filter.mp hentry
    obtain ⟨pkt, hpkt, heq⟩ := mem_map.mp hseq
    exact ⟨k, group, pkt, mem_lookup_iff.mpr hmem, by simpa using hssrc, hpkt, heq⟩
  · rintro ⟨k, group, pkt, hfind, hssrc, hpkt, heq⟩
    have hmem := mem_lookup_iff.mp hfind
    refine ⟨⟨k, group⟩, mem_filter.mpr ⟨hmem, by simpa using hssrc⟩, ?_⟩
    exact mem_map.mpr ⟨pkt, hpkt, heq⟩

theorem lastMarker_mem (h : lastMarker sorted = some seq) : ∃ pkt ∈ sorted, pkt.seq = seq := by
  obtain ⟨pkt, hfound, hseq⟩ := Option.map_eq_some_iff.mp h
  exact ⟨pkt, mem_reverse.mp (mem_of_find?_eq_some hfound), hseq⟩

theorem InWindow.mono (hlive : next.liveSeqs ssrc ⊆ state.liveSeqs ssrc) (h : InWindow ssrc state) :
    InWindow ssrc next := by
  obtain ⟨base, hbase⟩ := h
  exact ⟨base, fun seq hseq => hbase seq (hlive hseq)⟩

theorem liveSeqs_close (hfind : state.groups.lookup k = some group)
    (hgroups : next.groups = state.groups.erase k)
    (hanchor : next.lastMarkerSeq.lookup ssrc = state.lastMarkerSeq.lookup ssrc ∨
      group.ssrc = ssrc ∧
        next.lastMarkerSeq.lookup ssrc = lastMarker (sortedPackets group.pkts)) :
    next.liveSeqs ssrc ⊆ state.liveSeqs ssrc := by
  intro seq hseq
  rw [mem_liveSeqs] at hseq ⊢
  rcases hseq with hnew | ⟨other, found, pkt, hfound, hrest⟩
  · rcases hanchor with hsame | ⟨hssrc, hmarker⟩
    · exact .inl (hsame.symm.trans hnew)
    · obtain ⟨pkt, hpkt, hseq⟩ := lastMarker_mem (hmarker.symm.trans hnew)
      exact .inr ⟨k, group, pkt, hfind, hssrc, (sortedPackets_perm _).mem_iff.mp hpkt, hseq⟩
  · rw [hgroups] at hfound
    exact .inr ⟨other, found, pkt, lookup_erase_some hfound, hrest⟩

theorem anchorAfterFlush_cases (anchors : AssocMap UInt32 UInt16) (ssrc other : UInt32)
    (sorted : List GroupPacket) :
    (anchorAfterFlush anchors ssrc sorted).lookup other = anchors.lookup other ∨
      ssrc = other ∧ (anchorAfterFlush anchors ssrc sorted).lookup other = lastMarker sorted := by
  unfold anchorAfterFlush
  cases hmarker : lastMarker sorted with
  | none => exact .inl rfl
  | some seq =>
    by_cases heq : other = ssrc
    · subst heq
      exact .inr ⟨rfl, lookup_insert _⟩
    · exact .inl (lookup_insert_ne heq)

theorem anchorAfterDrop_cases (anchors : AssocMap UInt32 UInt16) (ssrc other : UInt32)
    (sorted : List GroupPacket) :
    (anchorAfterDrop anchors ssrc sorted).lookup other = anchors.lookup other ∨
      ssrc = other ∧ (anchorAfterDrop anchors ssrc sorted).lookup other = lastMarker sorted := by
  by_cases heq : other = ssrc
  · subst heq
    exact .inr ⟨rfl, anchorAfterDrop_lookup _ _ _⟩
  · exact .inl (anchorAfterDrop_lookup_ne _ _ heq)

theorem liveSeqs_setDeadline (ssrc : UInt32) (deadline : Int)
    (hfind : state.groups.lookup k = some group) :
    (state.setDeadline k group deadline).liveSeqs ssrc ⊆ state.liveSeqs ssrc := by
  intro seq hseq
  rw [mem_liveSeqs] at hseq ⊢
  rcases hseq with hanchor | ⟨other, found, pkt, hfound, hssrc, hpkt⟩
  · exact .inl hanchor
  · rcases lookup_insert_some hfound with heq | hold
    · subst heq
      exact .inr ⟨k, group, pkt, hfind, hssrc, hpkt⟩
    · exact .inr ⟨other, found, pkt, hold, hssrc, hpkt⟩

theorem liveSeqs_settle (ssrc : UInt32) (hsettle : Settle now state next) :
    next.liveSeqs ssrc ⊆ state.liveSeqs ssrc := by
  cases hsettle with
  | arm k group hfind =>
    unfold armDeadline
    split
    · exact liveSeqs_setDeadline ssrc (now + avcRepairWaitNs) hfind
    · exact List.Subset.refl _
  | flush k group hfind hcomplete =>
    rw [flushGroup_eq now (lookup_insert _)]
    apply List.Subset.trans _ (liveSeqs_setDeadline ssrc 0 hfind)
    exact liveSeqs_close (lookup_insert _) rfl (anchorAfterFlush_cases _ _ _ _)

theorem forward_of_offset_lt {old new : UInt16} (hless : (old - base).toNat < (new - base).toNat)
    (hshort : (new - base).toNat < 0x8000) : Forward old new := by
  unfold Forward
  simp only [UInt16.toNat_sub] at *
  have hbase := base.toNat_lt
  have hold := old.toNat_lt
  have hnew := new.toNat_lt
  omega

theorem offset_lt_getLast (hchain : sorted.IsChain fun left right => right.seq = left.seq + 1)
    (hfront : ∀ front, sorted.head? = some front → front.seq = seq + 1)
    (hback : sorted.getLast? = some back) (hseq : (seq - base).toNat < 0x8000)
    (hshort : ∀ pkt ∈ sorted, (pkt.seq - base).toNat < 0x8000) :
    (seq - base).toNat < (back.seq - base).toNat := by
  induction sorted generalizing seq with
  | nil => cases hback
  | cons front rest ih =>
    have hfirst := hfront front rfl
    have hstep : (seq - base).toNat < (front.seq - base).toNat := by
      rw [hfirst]
      simp only [UInt16.toNat_sub, UInt16.toNat_add, UInt16.toNat_one] at *
      have hbase := base.toNat_lt
      have hlt := seq.toNat_lt
      omega
    have hfrontShort := hshort front mem_cons_self
    cases rest with
    | nil =>
      obtain rfl : front = back := by simpa using hback
      exact hstep
    | cons next rest =>
      obtain ⟨hnext, hrest⟩ := isChain_cons_cons.mp hchain
      apply hstep.trans
      apply ih hrest _ (by simpa using hback) hfrontShort
        (fun pkt hpkt => hshort pkt (mem_cons_of_mem _ hpkt))
      intro first hhead
      obtain rfl : next = first := by simpa using hhead
      exact hnext

theorem notBehind_of_complete (hfind : state.groups.lookup k = some group)
    (hdistinct : (group.pkts.map GroupPacket.seq).Nodup) (hwindow : InWindow group.ssrc state)
    (hcomplete : groupComplete (state.lastMarkerSeq.lookup group.ssrc) group
      (sortedPackets group.pkts) = true) :
    NotBehind (state.lastMarkerSeq.lookup group.ssrc) (lastMarker (sortedPackets group.pkts)) := by
  obtain ⟨front, back, hfront, hback, -, hmarked, hgap, hnext⟩ := groupComplete_iff.mp hcomplete
  rw [lastMarker_of_marked hback hmarked]
  cases hanchor : state.lastMarkerSeq.lookup group.ssrc with
  | none => exact trivial
  | some seq =>
    right
    obtain ⟨base, hbase⟩ := hwindow
    have hshort : ∀ pkt ∈ sortedPackets group.pkts, (pkt.seq - base).toNat < 0x8000 := by
      intro pkt hpkt
      apply hbase
      rw [mem_liveSeqs]
      exact .inr ⟨k, group, pkt, hfind, rfl, (sortedPackets_perm _).mem_iff.mp hpkt, rfl⟩
    have hchain := hasGap_consecutive (sortedPackets_distinct hdistinct) hgap
    apply forward_of_offset_lt _ (hshort back (mem_of_getLast? hback))
    apply offset_lt_getLast hchain _ hback (hbase seq (mem_liveSeqs.mpr (.inl hanchor))) hshort
    intro first hfirst
    obtain rfl : front = first := Option.some_inj.mp (hfront.symm.trans hfirst)
    exact hnext seq hanchor

theorem Continuous.anchor_eq (h : Continuous state) (ssrc : UInt32) :
    state.lastMarkerSeq.lookup ssrc = (anchorHistory ssrc state.events).getLast?.join := by
  rw [h.anchors, anchorHistory, List.getLast?_map]
  cases (eventsOf ssrc state.events).getLast? <;> rfl

structure Settling (ssrc : UInt32) (before : Prop) (state : RtpAssembler) : Prop where
  continuous : Continuous state
  window : InWindow ssrc state
  history : (anchorHistory ssrc state.events).IsChain NotBehind ↔ before

theorem Settling.settle {before : Prop} (hsettle : Settle now state next)
    (h : Settling ssrc before state) : Settling ssrc before next where
  continuous := hsettle.change.continuous h.continuous
  window := h.window.mono (liveSeqs_settle ssrc hsettle)
  history := by
    rw [← h.history]
    cases hsettle with
    | arm k group hfind =>
      unfold armDeadline
      split <;> rfl
    | flush k group hfind hcomplete =>
      rw [flushGroup_eq now (lookup_insert _)]
      dsimp only [setDeadline]
      unfold anchorHistory
      rw [eventsOf_append]
      split
      · rename_i heq
        rw [map_append, isChain_history_append]
        have hanchor := h.continuous.anchor_eq ssrc
        unfold anchorHistory at hanchor
        rw [← hanchor]
        apply and_iff_left
        apply isChain_pair.mpr
        obtain rfl : group.ssrc = ssrc := heq
        exact notBehind_of_complete hfind (h.continuous.distinct k group hfind) h.window hcomplete
      · rfl

variable (reason : String)

theorem dropGroup_eq (now : Int) (unblocked : List UInt32)
    (hfind : state.groups.lookup k = some group) :
    let next := (dropGroup reason now (state, unblocked) k).1
    next.groups = state.groups.erase k ∧ next.groupOrder = state.groupOrder.filter (· ≠ k) ∧
      next.lastMarkerSeq =
        anchorAfterDrop state.lastMarkerSeq group.ssrc (sortedPackets group.pkts) ∧
      ∃ dropped : DroppedGroup, dropped.ssrc = group.ssrc ∧
        next.events = state.events ++ [.drop dropped (sortedPackets group.pkts)] := by
  unfold dropGroup
  simp only [hfind, true_and]
  exact ⟨_, rfl, rfl⟩

theorem dropGroup_none {state : RtpAssembler × List UInt32} (reason : String) (now : Int)
    (hnone : state.1.groups.lookup k = none) : dropGroup reason now state k = state := by
  unfold dropGroup
  rw [hnone]

theorem foldl_dropGroup_history (ssrc : UInt32) (reason : String) (now : Int) (keys : List Key)
    (state : RtpAssembler × List UInt32) :
    anchorHistory ssrc (keys.foldl (dropGroup reason now) state).1.events =
      anchorHistory ssrc state.1.events ++ staleMarkers ssrc state.1.groups keys := by
  induction keys generalizing state with
  | nil => simp [staleMarkers]
  | cons k rest ih =>
    rw [foldl_cons, ih, staleMarkers]
    cases hfind : state.1.groups.lookup k with
    | none => rw [dropGroup_none reason now hfind]
    | some group =>
      obtain ⟨hgroups, -, -, dropped, hssrc, hevents⟩ :=
        dropGroup_eq reason now state.2 hfind
      rw [hgroups, hevents]
      unfold anchorHistory
      rw [eventsOf_append]
      simp only [Event.ssrc, hssrc]
      split
      · rw [map_append, append_assoc]
        rfl
      · rfl

theorem foldl_dropGroup_groups (now : Int) (keys : List Key) (state : RtpAssembler × List UInt32) :
    (keys.foldl (dropGroup reason now) state).1.groups =
      keys.foldl (fun groups k => groups.erase k) state.1.groups := by
  induction keys generalizing state with
  | nil => rfl
  | cons k rest ih =>
    rw [foldl_cons, foldl_cons, ih]
    cases hfind : state.1.groups.lookup k with
    | none =>
      rw [dropGroup_none reason now hfind, AssocMap.erase_of_lookup_none hfind]
    | some group => rw [(dropGroup_eq reason now state.2 hfind).1]

theorem staleMarkers_append (ssrc : UInt32) (groups : AssocMap Key Group) (left right : List Key) :
    staleMarkers ssrc groups (left ++ right) = staleMarkers ssrc groups left ++
      staleMarkers ssrc (left.foldl (fun groups k => groups.erase k) groups) right := by
  induction left generalizing groups with
  | nil => rfl
  | cons k rest ih =>
    rw [cons_append, staleMarkers, staleMarkers, foldl_cons]
    cases hfind : groups.lookup k with
    | none => rw [ih, AssocMap.erase_of_lookup_none hfind]
    | some group =>
      dsimp only
      split
      · rw [ih, cons_append]
      · rw [ih]

/-- Dropping expired repairs leaves the overdue markers to be dropped as they
are: those have no repair deadline. -/
theorem foldl_dropGroup_markerExpired (now : Int) (keys : List Key)
    (state : RtpAssembler × List UInt32)
    (hkeys : ∀ k ∈ keys, ∀ group, state.1.groups.lookup k = some group →
      group.repairDeadlineNs ≠ 0) :
    let next := (keys.foldl (dropGroup reason now) state).1
    next.groupOrder.filter (next.markerExpired now) =
      state.1.groupOrder.filter (state.1.markerExpired now) := by
  induction keys generalizing state with
  | nil => rfl
  | cons k rest ih =>
    obtain ⟨hk, hrest⟩ := forall_mem_cons.mp hkeys
    rw [foldl_cons]
    cases hfind : state.1.groups.lookup k with
    | none =>
      rw [dropGroup_none reason now hfind]
      exact ih state hrest
    | some group =>
      obtain ⟨hgroups, horder, -⟩ := dropGroup_eq reason now state.2 hfind
      have hlater : ∀ other ∈ rest, ∀ found,
          (dropGroup reason now state k).1.groups.lookup other = some found →
            found.repairDeadlineNs ≠ 0 := by
        intro other hother found hfound
        rw [hgroups] at hfound
        exact hrest other hother found (lookup_erase_some hfound)
      apply (ih _ hlater).trans
      rw [horder, filter_filter]
      apply filter_congr
      intro other _
      unfold markerExpired
      rw [hgroups]
      by_cases heq : other = k
      · subst heq
        simp [hfind, hk group hfind]
      · simp [heq, lookup_erase_ne heq]

theorem dropStale_history (ssrc : UInt32) (state : RtpAssembler) (now : Int) :
    anchorHistory ssrc (state.dropStale now).1.events =
      anchorHistory ssrc state.events ++ staleMarkers ssrc state.groups (state.staleKeys now) := by
  have hexpired : ∀ k ∈ state.deadlineOrder.filter (state.repairExpired now), ∀ group,
      state.groups.lookup k = some group → group.repairDeadlineNs ≠ 0 := by
    intro k hk group hfind
    have hexpired := (mem_filter.mp hk).2
    unfold repairExpired at hexpired
    rw [hfind] at hexpired
    simp only [Bool.and_eq_true, decide_eq_true_eq] at hexpired
    exact hexpired.1
  unfold dropStale staleKeys
  dsimp only
  rw [foldl_dropGroup_markerExpired _ now _ (state, []) hexpired, foldl_dropGroup_history,
    foldl_dropGroup_history, foldl_dropGroup_groups, staleMarkers_append, append_assoc]

theorem InWindow.dropGroup (h : InWindow ssrc state) (hfind : state.groups.lookup k = some group)
    (reason : String) (now : Int) :
    InWindow ssrc (RtpAssembler.dropGroup reason now (state, []) k).1 := by
  obtain ⟨hgroups, -, hanchor, -⟩ := dropGroup_eq reason now [] hfind
  apply h.mono
  apply liveSeqs_close hfind hgroups
  rw [hanchor]
  exact anchorAfterDrop_cases _ _ _ _

theorem step_history_iff (h : Continuous state) (hwindow : InWindow ssrc (state.entered op)) :
    (anchorHistory ssrc (state.step op).events).IsChain NotBehind ↔
      (anchorHistory ssrc state.events).IsChain NotBehind ∧ DropsInOrder ssrc state op := by
  cases op with
  | queue source ts pkt now =>
    simp only [DropsInOrder, and_true]
    unfold step
    dsimp only
    rcases queuePacket_cases state source ts pkt now with
      ⟨-, heq⟩ | ⟨hfresh, ⟨-, heq⟩ | ⟨hcodec, -, -⟩ | ⟨-, hsettles⟩⟩
    · rw [heq]
    · rw [heq]
      rfl
    · exact absurd h.codec hcodec
    · have hentered : state.entered (.queue source ts pkt now) =
          state.storePacket source ts pkt now := by
        simp [entered, hfresh]
      rw [hentered] at hwindow
      have hstart : Settling ssrc ((anchorHistory ssrc state.events).IsChain NotBehind)
          (state.storePacket source ts pkt now) :=
        ⟨h.storePacket source ts pkt now, hwindow, Iff.rfl⟩
      exact (hsettles.invariant (fun _ _ hsettle => Settling.settle hsettle) hstart).history
  | evict now =>
    obtain ⟨settled, hsettles, heq⟩ := evictStale_eq state now
    have hstart : Settling ssrc
        ((anchorHistory ssrc (state.dropStale now).1.events).IsChain NotBehind)
        (state.dropStale now).1 := by
      refine ⟨?_, ?_, Iff.rfl⟩
      · exact (changes_dropStale state now).invariant (fun _ _ hchange => hchange.continuous) h
      · apply dropStale_invariant _ hwindow
        intro state k group reason hfind hstate
        exact hstate.dropGroup hfind reason now
    have hsettled := hsettles.invariant (fun _ _ hsettle => Settling.settle hsettle) hstart
    unfold step
    dsimp only
    rw [heq]
    dsimp only
    rw [hsettled.history, dropStale_history, isChain_history_append, ← h.anchor_eq]
    rfl

def StaysInWindow (ssrc : UInt32) : RtpAssembler → List AssemblerOp → Prop :=
  EveryCall fun state op => InWindow ssrc (state.entered op)

theorem run_history_iff (h : Continuous state) (hwindow : StaysInWindow ssrc state ops) :
    (anchorHistory ssrc (state.run ops).events).IsChain NotBehind ↔
      (anchorHistory ssrc state.events).IsChain NotBehind ∧
        EveryCall (DropsInOrder ssrc) state ops := by
  induction ops generalizing state with
  | nil => simp [run, EveryCall]
  | cons op rest ih =>
    obtain ⟨hfirst, hrest⟩ := hwindow
    have hnext : Continuous (state.step op) :=
      (changes_step state op).invariant (fun _ _ hchange => hchange.continuous) h
    have hcons : state.run (op :: rest) = (state.step op).run rest := rfl
    rw [hcons, ih hnext hrest, step_history_iff h hfirst, and_assoc]
    rfl

/-- Along every AVC run inside the window, `last_marker_seq_` takes the values of
the history, and it never moves backwards exactly when every eviction drops the
groups of the SSRC in sequence order from the anchor on. -/
theorem anchor_never_backwards_iff (pool : PacketPool) (ssrc : UInt32) (ops : List AssemblerOp)
    (hwindow : StaysInWindow ssrc (new pool .avc) ops) :
    (∀ before, before <+: ops →
      ((new pool .avc).run before).lastMarkerSeq.lookup ssrc =
        (anchorHistory ssrc ((new pool .avc).run before).events).getLast?.join) ∧
    ((anchorHistory ssrc ((new pool .avc).run ops).events).IsChain NotBehind ↔
      EveryCall (DropsInOrder ssrc) (new pool .avc) ops) := by
  constructor
  · intro before _
    apply Continuous.anchor_eq
    exact (changes_run _ before).invariant (fun _ _ hchange => hchange.continuous)
      (new_continuous pool)
  · rw [run_history_iff (new_continuous pool) hwindow]
    simp [new, anchorHistory, eventsOf]

theorem inWindow_of_all (base : UInt16)
    (h : (state.liveSeqs ssrc).all fun seq => (seq - base).toNat < 0x8000) :
    InWindow ssrc state :=
  ⟨base, all_iff_forall_prop.mp h⟩

def skippedUnit : List AssemblerOp :=
  [.queue 1 200 ⟨12, true, 0⟩ 0, .queue 1 400 ⟨14, true, 1⟩ 1000000, .evict 80000000]

theorem anchor_never_backwards_skippedUnit :
    StaysInWindow 1 (new blankPool .avc) skippedUnit ∧
    EveryCall (DropsInOrder 1) (new blankPool .avc) skippedUnit ∧
    (anchorHistory 1 ((new blankPool .avc).run skippedUnit).events).IsChain NotBehind := by
  have hwindow : StaysInWindow 1 (new blankPool .avc) skippedUnit := by
    refine ⟨?_, ?_, ?_, trivial⟩ <;> exact inWindow_of_all 12 (by decide +kernel)
  have horder : EveryCall (DropsInOrder 1) (new blankPool .avc) skippedUnit :=
    ⟨trivial, trivial, by unfold DropsInOrder; decide +kernel, trivial⟩
  exact ⟨hwindow, horder, (anchor_never_backwards_iff blankPool 1 _ hwindow).2.mpr horder⟩

def lateMarker : List AssemblerOp :=
  [.queue 1 200 ⟨12, true, 0⟩ 0, .queue 1 100 ⟨11, true, 1⟩ 1000000, .evict 80000000,
    .queue 1 300 ⟨13, true, 2⟩ 81000000, .evict 160000000]

/-- The drop of the late group `{11}` turns the anchor back from 12 to 11, and
unit `{13}`, which continues the last flushed one, is rejected and dropped. -/
theorem lateMarker_moves_back :
    (lateMarker.map AssemblerOp.time).Pairwise (· ≤ ·) ∧
    StaysInWindow 1 (new blankPool .avc) lateMarker ∧
    anchorHistory 1 ((new blankPool .avc).run lateMarker).events = [some 12, some 11, some 13] ∧
    ¬ (anchorHistory 1 ((new blankPool .avc).run lateMarker).events).IsChain NotBehind ∧
    (((new blankPool .avc).run lateMarker).events.map fun event =>
      match event with
      | .flush group => (group.ts, true)
      | .drop group _ => (group.ts, false)) = [(200, true), (100, false), (300, false)] := by
  have hwindow : StaysInWindow 1 (new blankPool .avc) lateMarker := by
    refine ⟨?_, ?_, ?_, ?_, ?_, trivial⟩ <;> exact inWindow_of_all 10 (by decide +kernel)
  exact ⟨by decide, hwindow, by decide +kernel, by decide +kernel, by decide +kernel⟩

end RtpAssembler

end Scshr.Media
