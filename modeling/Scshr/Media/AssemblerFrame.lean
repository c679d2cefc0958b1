import Mathlib.Data.List.Dedup
import Scshr.Media.AssemblerContinuity

/-! What the assembler does for one SSRC leaves the others alone.  `Frame` says
that everything kept under an SSRC is unchanged; the eviction pass is framed for
an SSRC none of whose groups has expired. -/
namespace Scshr.Media.RtpAssembler

open Common Lib List AList

/-- Pending groups sit under their own key and are listed in insertion order. -/
structure WellKeyed (state : RtpAssembler) : Prop where
  keyed : ∀ k group, state.groups.lookup k = some group → key group.ssrc group.ts = k
  listed : ∀ k group, state.groups.lookup k = some group → k ∈ state.groupOrder

variable {state next start : RtpAssembler} {k : Key} {group : Group} {now : Int}

theorem WellKeyed.ssrc (h : WellKeyed state) (hfind : state.groups.lookup k = some group) :
    group.ssrc = k.1 :=
  congrArg Prod.fst (h.keyed k group hfind)

theorem WellKeyed.setDeadline (deadline : Int) (h : WellKeyed state)
    (hfind : state.groups.lookup k = some group) :
    WellKeyed (state.setDeadline k group deadline) := by
  constructor
  · intro other found hfound
    by_cases heq : other = k
    · subst heq
      obtain rfl := Option.some_inj.mp ((lookup_insert _).symm.trans hfound)
      exact h.keyed other group hfind
    · exact h.keyed other found ((lookup_insert_ne heq).symm.trans hfound)
  · intro other found hfound
    by_cases heq : other = k
    · subst heq
      exact h.listed other group hfind
    · exact h.listed other found ((lookup_insert_ne heq).symm.trans hfound)

theorem WellKeyed.armDeadline (now : Int) (h : WellKeyed state)
    (hfind : state.groups.lookup k = some group) : WellKeyed (state.armDeadline k group now) := by
  unfold RtpAssembler.armDeadline
  split
  · have hset := h.setDeadline (now + avcRepairWaitNs) hfind
    exact ⟨hset.keyed, hset.listed⟩
  · exact h

theorem WellKeyed.remove (h : WellKeyed state) (hgroups : next.groups = state.groups.erase k)
    (horder : next.groupOrder = state.groupOrder.filter (· ≠ k)) : WellKeyed next := by
  constructor
  · intro other found hfound
    rw [hgroups] at hfound
    exact h.keyed other found (lookup_erase_some hfound)
  · intro other found hfound
    rw [hgroups] at hfound
    have hne : other ≠ k := by
      rintro rfl
      rw [lookup_erase] at hfound
      cases hfound
    rw [horder, mem_filter]
    exact ⟨h.listed other found (lookup_erase_some hfound), by simpa using hne⟩

theorem addPacket_ssrc (group : Group) (pkt : GroupPacket) :
    (addPacket group pkt).ssrc = group.ssrc := by
  unfold addPacket
  split <;> rfl

theorem addPacket_ts (group : Group) (pkt : GroupPacket) :
    (addPacket group pkt).ts = group.ts := by
  unfold addPacket
  split <;> rfl

theorem WellKeyed.findOrCreate (ssrc ts : UInt32) (now : Int) (h : WellKeyed state) :
    key (state.findOrCreate ssrc ts now).ssrc (state.findOrCreate ssrc ts now).ts =
      key ssrc ts := by
  unfold RtpAssembler.findOrCreate
  cases hfind : state.groups.lookup (key ssrc ts) with
  | none => rfl
  | some group => exact h.keyed _ group hfind

theorem WellKeyed.storePacket (ssrc ts : UInt32) (pkt : GroupPacket) (now : Int)
    (h : WellKeyed state) : WellKeyed (state.storePacket ssrc ts pkt now) := by
  constructor
  · intro k group hfind
    by_cases heq : k = key ssrc ts
    · subst heq
      obtain rfl := Option.some_inj.mp ((storePacket_lookup state ssrc ts pkt now).symm.trans hfind)
      rw [addPacket_ssrc, addPacket_ts]
      exact h.findOrCreate ssrc ts now
    · exact h.keyed k group ((lookup_insert_ne heq).symm.trans hfind)
  · intro k group hfind
    unfold RtpAssembler.storePacket
    dsimp only
    by_cases heq : k = key ssrc ts
    · subst heq
      cases hold : state.groups.lookup (key ssrc ts) with
      | none => simp
      | some old => exact h.listed _ old hold
    · have hmem := h.listed k group ((lookup_insert_ne heq).symm.trans hfind)
      split
      · exact hmem
      · exact mem_append_left _ hmem

theorem WellKeyed.flushGroup (k : Key) (now : Int) (h : WellKeyed state) :
    WellKeyed (state.flushGroup k now) := by
  cases hfind : state.groups.lookup k with
  | none =>
    unfold RtpAssembler.flushGroup
    rw [hfind]
    exact h
  | some group =>
    rw [flushGroup_eq now hfind]
    exact h.remove rfl rfl

theorem WellKeyed.dropGroup {state : RtpAssembler × List UInt32} (reason : String) (now : Int)
    (k : Key) (h : WellKeyed state.1) :
    WellKeyed (RtpAssembler.dropGroup reason now state k).1 := by
  unfold RtpAssembler.dropGroup
  split
  · exact h
  · exact h.remove rfl rfl

theorem Change.wellKeyed (hchange : Change state next) (h : WellKeyed state) : WellKeyed next := by
  cases hchange with
  | release slot => exact ⟨h.keyed, h.listed⟩
  | store ssrc ts pkt now hfresh => exact h.storePacket ssrc ts pkt now
  | arm k group now hfind => exact h.armDeadline now hfind
  | flushComplete k group now hfind hcomplete => exact (h.setDeadline 0 hfind).flushGroup k now
  | flushMarked k group now hfind hcodec hmarker => exact h.flushGroup k now
  | drop k group reason now hfind => exact h.dropGroup reason now k
  | prune now => exact ⟨h.keyed, h.listed⟩

theorem Changes.wellKeyed (h : Changes state next) (hkeyed : WellKeyed state) : WellKeyed next :=
  h.invariant (fun _ _ hchange => hchange.wellKeyed) hkeyed

theorem new_wellKeyed (pool : PacketPool) (codec : VideoCodec) : WellKeyed (new pool codec) := by
  constructor <;> simp [new]

theorem mem_orderedKeys :
    k ∈ state.orderedKeys ssrc ↔
      k ∈ state.groupOrder ∧ ∃ group, state.groups.lookup k = some group ∧ group.ssrc = ssrc := by
  unfold orderedKeys rankedKeys
  rw [((perm_insertionSort _ _).map Prod.snd).mem_iff, mem_map]
  constructor
  · rintro ⟨⟨rank, other⟩, hmem, rfl⟩
    obtain ⟨listed, hlisted, hranked⟩ := mem_filterMap.mp hmem
    cases hfind : state.groups.lookup listed with
    | none => simp [hfind] at hranked
    | some group =>
      by_cases hssrc : group.ssrc = ssrc
      · simp only [hfind, hssrc, ↓reduceIte, Option.some_inj, Prod.mk.injEq] at hranked
        obtain ⟨-, rfl⟩ := hranked
        exact ⟨hlisted, group, hfind, hssrc⟩
      · simp [hfind, hssrc] at hranked
  · rintro ⟨hlisted, group, hfind, hssrc⟩
    refine ⟨(groupRank (state.lastMarkerSeq.lookup ssrc) group, k), ?_, rfl⟩
    exact mem_filterMap.mpr ⟨k, hlisted, by simp [hfind, hssrc]⟩

/-- Nothing kept under `ssrc` has changed, and every new event belongs to a
group that was pending under another SSRC. -/
structure Frame (ssrc : UInt32) (state next : RtpAssembler) : Prop where
  groups : ∀ ts, next.groups.lookup (key ssrc ts) = state.groups.lookup (key ssrc ts)
  pending : ∀ k, (next.groups.lookup k).isSome → (state.groups.lookup k).isSome
  flushed : ∀ ts, next.recentlyFlushed.lookup (key ssrc ts) =
    state.recentlyFlushed.lookup (key ssrc ts)
  anchor : next.lastMarkerSeq.lookup ssrc = state.lastMarkerSeq.lookup ssrc
  events : ∃ fresh, next.events = state.events ++ fresh ∧ ∀ event ∈ fresh,
    event.ssrc ≠ ssrc ∧ ∃ k, (state.groups.lookup k).isSome ∧ k.1 = event.ssrc

namespace Frame

theorem refl (ssrc : UInt32) (state : RtpAssembler) : Frame ssrc state state where
  groups _ := rfl
  pending _ h := h
  flushed _ := rfl
  anchor := rfl
  events := ⟨[], (append_nil _).symm, by simp⟩

theorem trans (h : Frame ssrc state middle) (hnext : Frame ssrc middle next) :
    Frame ssrc state next where
  groups ts := (hnext.groups ts).trans (h.groups ts)
  pending k hsome := h.pending k (hnext.pending k hsome)
  flushed ts := (hnext.flushed ts).trans (h.flushed ts)
  anchor := hnext.anchor.trans h.anchor
  events := by
    obtain ⟨early, hearly, hforeign⟩ := h.events
    obtain ⟨late, hlate, hforeign'⟩ := hnext.events
    refine ⟨early ++ late, by rw [hlate, hearly, append_assoc], ?_⟩
    intro event hevent
    rcases mem_append.mp hevent with hmem | hmem
    · exact hforeign event hmem
    · obtain ⟨hne, k, hpending, hssrc⟩ := hforeign' event hmem
      exact ⟨hne, k, h.pending k hpending, hssrc⟩

variable {ssrc : UInt32}

theorem key_ne (hother : k.1 ≠ ssrc) (ts : UInt32) : key ssrc ts ≠ k := by
  rintro rfl
  exact hother rfl

theorem setDeadline (deadline : Int) (hfind : state.groups.lookup k = some group)
    (hother : k.1 ≠ ssrc) : Frame ssrc state (state.setDeadline k group deadline) where
  groups ts := lookup_insert_ne (key_ne hother ts)
  pending other hsome := by
    by_cases heq : other = k
    · rw [heq, hfind]
      rfl
    · rwa [RtpAssembler.setDeadline, lookup_insert_ne heq] at hsome
  flushed _ := rfl
  anchor := rfl
  events := ⟨[], (append_nil _).symm, by simp⟩

theorem armDeadline (now : Int) (hfind : state.groups.lookup k = some group)
    (hother : k.1 ≠ ssrc) : Frame ssrc state (state.armDeadline k group now) := by
  unfold RtpAssembler.armDeadline
  split
  · have hset := setDeadline (now + avcRepairWaitNs) hfind hother
    exact ⟨hset.groups, hset.pending, hset.flushed, hset.anchor, hset.events⟩
  · exact refl ssrc state

theorem close (hfind : state.groups.lookup k = some group) (hother : k.1 ≠ ssrc)
    (hgroups : next.groups = state.groups.erase k)
    (hflushed : next.recentlyFlushed = state.recentlyFlushed.insert k now)
    (hanchor : next.lastMarkerSeq.lookup ssrc = state.lastMarkerSeq.lookup ssrc)
    (hevents : next.events = state.events ++ [event]) (hevent : event.ssrc = k.1) :
    Frame ssrc state next where
  groups ts := by rw [hgroups, lookup_erase_ne (key_ne hother ts)]
  pending other hsome := by
    obtain ⟨found, hfound⟩ := Option.isSome_iff_exists.mp hsome
    rw [hgroups] at hfound
    rw [lookup_erase_some hfound]
    rfl
  flushed ts := by rw [hflushed, lookup_insert_ne (key_ne hother ts)]
  anchor := hanchor
  events := by
    refine ⟨[event], hevents, fun fresh hfresh => ?_⟩
    obtain rfl := mem_singleton.mp hfresh
    refine ⟨hevent ▸ hother, k, ?_, hevent.symm⟩
    rw [hfind]
    rfl

theorem anchorAfterFlush_lookup_ne (anchors : AssocMap UInt32 UInt16) (sorted : List GroupPacket)
    (hne : ssrc ≠ other) :
    (anchorAfterFlush anchors other sorted).lookup ssrc = anchors.lookup ssrc := by
  unfold anchorAfterFlush
  cases lastMarker sorted with
  | none => rfl
  | some seq => exact lookup_insert_ne hne

theorem flushGroup (now : Int) (hkeyed : WellKeyed state)
    (hfind : state.groups.lookup k = some group) (hother : k.1 ≠ ssrc) :
    Frame ssrc state (state.flushGroup k now) := by
  have hssrc := hkeyed.ssrc hfind
  rw [flushGroup_eq now hfind]
  exact close hfind hother rfl rfl
    (anchorAfterFlush_lookup_ne _ _ (fun heq => hother (hssrc ▸ heq.symm))) rfl hssrc

theorem dropGroup (reason : String) (now : Int) (hkeyed : WellKeyed state)
    (unblocked : List UInt32) (hother : k.1 ≠ ssrc) :
    Frame ssrc state (dropGroup reason now (state, unblocked) k).1 := by
  rw [dropGroup_fst]
  cases hfind : state.groups.lookup k with
  | none =>
    simp only [RtpAssembler.dropGroup, hfind]
    exact refl ssrc state
  | some group =>
    have hssrc := hkeyed.ssrc hfind
    simp only [RtpAssembler.dropGroup, hfind]
    exact close hfind hother rfl rfl
      (anchorAfterDrop_lookup_ne _ _ (fun heq => hother (hssrc ▸ heq.symm))) rfl hssrc

theorem flushReady (state : RtpAssembler) (other : UInt32) (now : Int) (hkeyed : WellKeyed state)
    (hother : other ≠ ssrc) : Frame ssrc state (state.flushReady other now) := by
  -- every key the loop looks at belongs to `other`
  have hkey : ∀ (state : RtpAssembler) k rest, WellKeyed state →
      state.orderedKeys other = k :: rest → k.1 ≠ ssrc := by
    intro state k rest hkeyed hkeys
    have hmem : k ∈ state.orderedKeys other := by rw [hkeys]; exact mem_cons_self
    obtain ⟨-, group, hfind, hssrc⟩ := mem_orderedKeys.mp hmem
    rw [← hkeyed.ssrc hfind, hssrc]
    exact hother
  induction state using RtpAssembler.flushReady.induct other now with
  | case1 state hkeys =>
    rw [flushReady_eq, hkeys]
    exact refl ssrc state
  | case2 state k rest hkeys hnone =>
    rw [flushReady_eq, hkeys]
    simp only [hnone]
    exact refl ssrc state
  | case3 state k rest hkeys group hfind hcomplete ih =>
    have hne := hkey state k rest hkeyed hkeys
    have hset := hkeyed.setDeadline 0 hfind
    rw [flushReady_eq, hkeys]
    simp only [hfind, hcomplete, ↓reduceIte]
    refine (setDeadline 0 hfind hne).trans ?_
    exact (flushGroup now hset (lookup_insert _) hne).trans (ih (hset.flushGroup k now))
  | case4 state k rest hkeys group hfind hcomplete =>
    rw [flushReady_eq, hkeys]
    simp only [hfind, hcomplete]
    exact armDeadline now hfind (hkey state k rest hkeyed hkeys)

theorem foldl_flushReady (others : List UInt32) (now : Int) (state : RtpAssembler)
    (hkeyed : WellKeyed state) (hothers : ∀ other ∈ others, other ≠ ssrc) :
    Frame ssrc state (others.foldl (fun state other => state.flushReady other now) state) := by
  induction others generalizing state with
  | nil => exact refl ssrc state
  | cons head tail ih =>
    obtain ⟨hhead, htail⟩ := forall_mem_cons.mp hothers
    have hnext := (changes_flushReady state head now).wellKeyed hkeyed
    exact (flushReady state head now hkeyed hhead).trans (ih _ hnext htail)

end Frame

structure DropPass (ssrc : UInt32) (start : RtpAssembler)
    (state : RtpAssembler × List UInt32) : Prop where
  frame : Frame ssrc start state.1
  keyed : WellKeyed state.1
  unblocked : ∀ other ∈ state.2, other ≠ ssrc

theorem DropPass.dropGroup {ssrc : UInt32} {state : RtpAssembler × List UInt32} (reason : String)
    (now : Int) (h : DropPass ssrc start state) (hother : k.1 ≠ ssrc) :
    DropPass ssrc start (dropGroup reason now state k) where
  frame := h.frame.trans (Frame.dropGroup reason now h.keyed state.2 hother)
  keyed := h.keyed.dropGroup reason now k
  unblocked := by
    intro other hmem
    unfold RtpAssembler.dropGroup at hmem
    split at hmem
    · exact h.unblocked other hmem
    · rename_i group hfind
      rcases mem_append.mp hmem with hold | hnew
      · exact h.unblocked other hold
      · rw [mem_singleton.mp hnew, h.keyed.ssrc hfind]
        exact hother

theorem DropPass.foldl {ssrc : UInt32} (reason : String) (now : Int) (keys : List Key)
    {state : RtpAssembler × List UInt32} (h : DropPass ssrc start state)
    (hkeys : ∀ k ∈ keys, k.1 ≠ ssrc) :
    DropPass ssrc start (keys.foldl (RtpAssembler.dropGroup reason now) state) := by
  induction keys generalizing state with
  | nil => exact h
  | cons head tail ih =>
    obtain ⟨hhead, htail⟩ := forall_mem_cons.mp hkeys
    exact ih (h.dropGroup reason now hhead) htail

def Live (now : Int) (group : Group) : Prop :=
  (group.repairDeadlineNs = 0 ∨ now < group.repairDeadlineNs) ∧
    now - group.arrivalNs ≤ pendingGroupTtlNs

theorem repairExpired_of_live (h : ∀ group, state.groups.lookup k = some group → Live now group) :
    state.repairExpired now k = false := by
  unfold repairExpired
  cases hfind : state.groups.lookup k with
  | none => rfl
  | some group =>
    rcases (h group hfind).1 with hzero | hlater
    · simp [hzero]
    · simp [Int.not_le.mpr hlater]

theorem markerExpired_of_live (h : ∀ group, state.groups.lookup k = some group → Live now group) :
    state.markerExpired now k = false := by
  unfold markerExpired
  cases hfind : state.groups.lookup k with
  | none => rfl
  | some group => simp [Int.not_lt.mpr (h group hfind).2]

theorem dropStale_frame (now : Int) (hkeyed : WellKeyed state)
    (hlive : ∀ ts group, state.groups.lookup (key ssrc ts) = some group → Live now group) :
    DropPass ssrc state (state.dropStale now) := by
  have hrepair : DropPass ssrc state ((state.deadlineOrder.filter (state.repairExpired now)).foldl
      (dropGroup "NACK/reorder timeout" now) (state, [])) := by
    apply DropPass.foldl _ now _ ⟨Frame.refl ssrc state, hkeyed, by simp⟩
    rintro ⟨other, ts⟩ hmem rfl
    have hexpired := (mem_filter.mp hmem).2
    exact absurd ((repairExpired_of_live (hlive ts)).symm.trans hexpired) Bool.false_ne_true
  unfold dropStale
  apply hrepair.foldl
  rintro ⟨other, ts⟩ hmem rfl
  have hexpired := (mem_filter.mp hmem).2
  have hlater := markerExpired_of_live fun group hfind =>
    hlive ts group ((hrepair.frame.groups ts).symm.trans hfind)
  exact absurd (hlater.symm.trans hexpired) Bool.false_ne_true

theorem mem_setOrder : ssrc ∈ setOrder ssrcs ↔ ssrc ∈ ssrcs := by
  unfold setOrder
  rw [(perm_insertionSort _ _).mem_iff, mem_dedup]

theorem evictStale_frame (now : Int) (hkeyed : WellKeyed state)
    (hlive : ∀ ts group, state.groups.lookup (key ssrc ts) = some group → Live now group) :
    ∃ middle, Frame ssrc state middle ∧ state.evictStale now =
      { middle with
        recentlyFlushed := middle.recentlyFlushed.keepIf fun flushedAt =>
          now - flushedAt ≤ flushedDedupTtlNs } := by
  have hdrop := dropStale_frame now hkeyed hlive
  have hflush := Frame.foldl_flushReady (setOrder (state.dropStale now).2) now _ hdrop.keyed
    fun other hmem => hdrop.unblocked other (mem_setOrder.mp hmem)
  exact ⟨_, hdrop.frame.trans hflush, rfl⟩

end Scshr.Media.RtpAssembler
