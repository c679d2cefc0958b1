import Scshr.Media.AssemblerLedger
import Scshr.Media.SlotOwnership

/-! What an eviction closes: exactly the groups that are stale when it begins, each of them once,
and no group it leaves pending is stale.  The passes look for deadlines in the order they were
armed, so that every group with a deadline has to be listed there. -/
namespace Scshr.Media

open Common Lib

def Event.dropKey : Event → Option Key
  | .flush _ => none
  | .drop group _ => some (Media.key group.ssrc group.ts)

def droppedKeys (events : List Event) : List Key := events.filterMap Event.dropKey

namespace RtpAssembler

/-- The states of an assembler between two calls, in any order and at any times.  The pool is
shared with the thread that receives packets, so it may have changed meanwhile. -/
inductive Reachable : RtpAssembler → Prop where
  | new (pool : PacketPool) (codec : VideoCodec) : Reachable (new pool codec)
  | step {state : RtpAssembler} (op : AssemblerOp) (before : Reachable state) :
      Reachable (state.step op)
  | reset {state : RtpAssembler} (before : Reachable state) : Reachable state.reset
  | shared {state : RtpAssembler} (pool : PacketPool) (before : Reachable state) :
      Reachable { state with pool := pool }

def Stale (now : Int) (group : Group) : Prop :=
  group.repairDeadlineNs ≠ 0 ∧ group.repairDeadlineNs ≤ now ∨
    group.repairDeadlineNs = 0 ∧ pendingGroupTtlNs < now - group.arrivalNs

/-- Every pending group is listed under its key, and every deadline in the order of arming. -/
structure Tracked (state : RtpAssembler) : Prop where
  keyed : WellKeyed state
  armed : ∀ k group, state.groups.lookup k = some group → group.repairDeadlineNs ≠ 0 →
    k ∈ state.deadlineOrder

namespace Tracked

variable {state next : RtpAssembler} {k : Key} {group : Group}

theorem armDeadline (h : Tracked state) (now : Int) (hfind : state.groups.lookup k = some group) :
    Tracked (state.armDeadline k group now) := by
  refine ⟨h.keyed.armDeadline now hfind, ?_⟩
  unfold RtpAssembler.armDeadline
  split
  case isTrue none =>
    intro other found hother hdeadline
    dsimp only [setDeadline] at hother ⊢
    rw [List.mem_append]
    by_cases heq : other = k
    · exact .inr (List.mem_singleton.mpr heq)
    · rw [AList.lookup_insert_ne heq] at hother
      exact .inl (h.armed other found hother hdeadline)
  case isFalse => exact h.armed

theorem storePacket (h : Tracked state) (ssrc ts : UInt32) (pkt : GroupPacket) (now : Int) :
    Tracked (state.storePacket ssrc ts pkt now) := by
  refine ⟨h.keyed.storePacket ssrc ts pkt now, ?_⟩
  intro other found hother hdeadline
  dsimp only [RtpAssembler.storePacket] at hother ⊢
  by_cases heq : other = key ssrc ts
  · rw [heq, AList.lookup_insert] at hother
    rw [← Option.some.inj hother, addPacket_deadline, findOrCreate] at hdeadline
    cases hold : state.groups.lookup (key ssrc ts) with
    | none =>
      rw [hold] at hdeadline
      exact absurd rfl hdeadline
    | some group =>
      rw [hold] at hdeadline
      exact heq ▸ h.armed _ group hold hdeadline
  · rw [AList.lookup_insert_ne heq] at hother
    exact h.armed other found hother hdeadline

theorem close (h : Tracked state) (hkeyed : WellKeyed next)
    (hgone : next.groups.lookup k = none)
    (hframe : ∀ other, other ≠ k → next.groups.lookup other = state.groups.lookup other)
    (hdeadlines : next.deadlineOrder = state.deadlineOrder.filter (· ≠ k)) : Tracked next := by
  refine ⟨hkeyed, ?_⟩
  intro other found hother hdeadline
  have hne : other ≠ k := by
    rintro rfl
    rw [hgone] at hother
    cases hother
  rw [hframe other hne] at hother
  rw [hdeadlines, List.mem_filter]
  exact ⟨h.armed other found hother hdeadline, decide_eq_true hne⟩

theorem change (hchange : Change state next) (h : Tracked state) : Tracked next := by
  have hkeyed := hchange.wellKeyed h.keyed
  cases hchange with
  | release slot => exact ⟨hkeyed, h.armed⟩
  | store ssrc ts pkt now hfresh => exact h.storePacket ssrc ts pkt now
  | arm k group now hfind => exact h.armDeadline now hfind
  | flushComplete k group now hfind hcomplete =>
    rw [flushGroup_eq now (AList.lookup_insert _)] at hkeyed ⊢
    apply h.close hkeyed (AList.lookup_erase _ _) _ rfl
    intro other hne
    dsimp only [setDeadline]
    rw [AList.lookup_erase_ne hne, AList.lookup_insert_ne hne]
  | flushMarked k group now hfind hcodec hmarker =>
    rw [flushGroup_eq now hfind] at hkeyed ⊢
    exact h.close hkeyed (AList.lookup_erase _ _) (fun other hne => AList.lookup_erase_ne hne) rfl
  | drop k group reason now hfind =>
    unfold dropGroup at hkeyed ⊢
    simp only [hfind] at hkeyed ⊢
    exact h.close hkeyed (AList.lookup_erase _ _) (fun other hne => AList.lookup_erase_ne hne) rfl
  | prune now => exact ⟨hkeyed, h.armed⟩

theorem of_reachable (reachable : Reachable state) : Tracked state := by
  induction reachable with
  | new pool codec => exact ⟨new_wellKeyed pool codec, by simp [RtpAssembler.new]⟩
  | step op before ih => exact (changes_step _ op).invariant (fun _ _ => change) ih
  | reset before ih =>
    constructor
    · constructor <;> simp [RtpAssembler.reset]
    · simp [RtpAssembler.reset]
  | shared pool before ih => exact ⟨⟨ih.keyed.keyed, ih.keyed.listed⟩, ih.armed⟩

end Tracked

variable {state : RtpAssembler} {k : Key} {group : Group} {now : Int}

theorem dropGroup_closes (reason : String) (now : Int) (unblocked : List UInt32)
    (hfind : state.groups.lookup k = some group) :
    ∃ event, event.dropKey = some (key group.ssrc group.ts) ∧
      (dropGroup reason now (state, unblocked) k).1.groups = state.groups.erase k ∧
      (dropGroup reason now (state, unblocked) k).1.events = state.events ++ [event] := by
  unfold dropGroup
  simp only [hfind]
  exact ⟨_, rfl, trivial, rfl⟩

structure DroppedFrom (state : RtpAssembler) (added : List Event) (next : RtpAssembler) :
    Prop where
  keyed : WellKeyed next
  events : next.events = state.events ++ added
  nodup : (droppedKeys added).Nodup
  gone : ∀ k ∈ droppedKeys added, next.groups.lookup k = none
  others : ∀ k, k ∉ droppedKeys added → next.groups.lookup k = state.groups.lookup k

namespace DroppedFrom

variable {next : RtpAssembler} {added : List Event}

theorem refl (keyed : WellKeyed state) : DroppedFrom state [] state where
  keyed := keyed
  events := (List.append_nil _).symm
  nodup := List.nodup_nil
  gone _ absent := absurd absent List.not_mem_nil
  others _ _ := rfl

theorem dropGroup (h : DroppedFrom state added next) (reason : String) (now : Int)
    (unblocked : List UInt32) (k : Key) :
    ∃ added', DroppedFrom state added' (dropGroup reason now (next, unblocked) k).1 ∧
      ∀ other, other ∈ droppedKeys added' ↔
        other ∈ droppedKeys added ∨ other = k ∧ (state.groups.lookup other).isSome := by
  cases hfind : next.groups.lookup k with
  | none =>
    have hsame : (RtpAssembler.dropGroup reason now (next, unblocked) k).1 = next := by
      unfold RtpAssembler.dropGroup
      simp only [hfind]
    rw [hsame]
    refine ⟨added, h, fun other => ⟨.inl, ?_⟩⟩
    rintro (hold | ⟨rfl, hpending⟩)
    · exact hold
    · by_contra hnew
      rw [← h.others other hnew, hfind] at hpending
      cases hpending
  | some group =>
    have hnew : k ∉ droppedKeys added := by
      intro hold
      rw [h.gone k hold] at hfind
      cases hfind
    obtain ⟨event, hevent, hgroups, hevents⟩ := dropGroup_closes reason now unblocked hfind
    have hkeys : droppedKeys (added ++ [event]) = droppedKeys added ++ [k] := by
      rw [h.keyed.keyed k group hfind] at hevent
      rw [droppedKeys, List.filterMap_append, List.filterMap_cons_some hevent]
      rfl
    refine ⟨added ++ [event], ⟨h.keyed.dropGroup reason now k, ?_, ?_, ?_, ?_⟩, ?_⟩
    · rw [hevents, h.events, List.append_assoc]
    · rw [hkeys, ← List.concat_eq_append]
      exact h.nodup.concat hnew
    · intro other hdropped
      rw [hgroups]
      by_cases heq : other = k
      · rw [heq, AList.lookup_erase]
      · rw [hkeys, List.mem_append, List.mem_singleton, or_iff_left heq] at hdropped
        rw [AList.lookup_erase_ne heq, h.gone other hdropped]
    · intro other hpending
      rw [hkeys, List.mem_append, List.mem_singleton, not_or] at hpending
      rw [hgroups, AList.lookup_erase_ne hpending.2, h.others other hpending.1]
    · intro other
      rw [hkeys, List.mem_append, List.mem_singleton]
      refine or_congr_right ⟨fun heq => ⟨heq, ?_⟩, And.left⟩
      rw [heq, ← h.others k hnew, hfind]
      rfl

theorem foldl (reason : String) (now : Int) (keys : List Key) (unblocked : List UInt32)
    (h : DroppedFrom state added next) :
    ∃ added', DroppedFrom state added'
        (keys.foldl (RtpAssembler.dropGroup reason now) (next, unblocked)).1 ∧
      ∀ k, k ∈ droppedKeys added' ↔
        k ∈ droppedKeys added ∨ k ∈ keys ∧ (state.groups.lookup k).isSome := by
  induction keys generalizing next added unblocked with
  | nil => exact ⟨added, h, fun k => by simp⟩
  | cons head tail ih =>
    obtain ⟨one, hone, hhead⟩ := h.dropGroup reason now unblocked head
    obtain ⟨all, hall, htail⟩ :=
      ih (RtpAssembler.dropGroup reason now (next, unblocked) head).2 hone
    refine ⟨all, hall, fun k => ?_⟩
    rw [htail, hhead, List.mem_cons, or_and_right, or_assoc]

end DroppedFrom

theorem repairExpired_iff :
    state.repairExpired now k = true ↔ ∃ group, state.groups.lookup k = some group ∧
      group.repairDeadlineNs ≠ 0 ∧ group.repairDeadlineNs ≤ now := by
  unfold repairExpired
  cases state.groups.lookup k with
  | none => simp
  | some group => simp

theorem markerExpired_iff :
    state.markerExpired now k = true ↔ ∃ group, state.groups.lookup k = some group ∧
      group.repairDeadlineNs = 0 ∧ pendingGroupTtlNs < now - group.arrivalNs := by
  unfold markerExpired
  cases state.groups.lookup k with
  | none => simp
  | some group => simp

theorem Tracked.mem_expired (tracked : Tracked state) :
    k ∈ state.deadlineOrder.filter (state.repairExpired now) ↔
      ∃ group, state.groups.lookup k = some group ∧
        group.repairDeadlineNs ≠ 0 ∧ group.repairDeadlineNs ≤ now := by
  rw [List.mem_filter, repairExpired_iff]
  refine and_iff_right_of_imp ?_
  rintro ⟨group, hfind, hdeadline, -⟩
  exact tracked.armed k group hfind hdeadline

theorem WellKeyed.mem_ttl (keyed : WellKeyed state) :
    k ∈ state.groupOrder.filter (state.markerExpired now) ↔
      ∃ group, state.groups.lookup k = some group ∧
        group.repairDeadlineNs = 0 ∧ pendingGroupTtlNs < now - group.arrivalNs := by
  rw [List.mem_filter, markerExpired_iff]
  refine and_iff_right_of_imp ?_
  rintro ⟨group, hfind, -⟩
  exact keyed.listed k group hfind

theorem dropStale_exact (tracked : Tracked state) (now : Int) :
    ∃ added, DroppedFrom state added (state.dropStale now).1 ∧
      ∀ k, k ∈ droppedKeys added ↔
        ∃ group, state.groups.lookup k = some group ∧ Stale now group := by
  obtain ⟨first, hfirst, hexpired⟩ := (DroppedFrom.refl tracked.keyed).foldl
    "NACK/reorder timeout" now (state.deadlineOrder.filter (state.repairExpired now)) []
  unfold dropStale
  dsimp only
  generalize (state.deadlineOrder.filter (state.repairExpired now)).foldl
    (dropGroup "NACK/reorder timeout" now) (state, []) = repaired at *
  obtain ⟨all, hall, hmarker⟩ := hfirst.foldl "RTP marker timeout" now
    (repaired.1.groupOrder.filter (repaired.1.markerExpired now)) repaired.2
  refine ⟨all, hall, fun k => ?_⟩
  rw [hmarker, hfirst.keyed.mem_ttl]
  constructor
  · rintro (hdropped | ⟨⟨group, hfind, hnone, hage⟩, -⟩)
    · obtain absent | ⟨hmem, -⟩ := (hexpired k).mp hdropped
      · cases absent
      · obtain ⟨group, hfind, hdeadline⟩ := tracked.mem_expired.mp hmem
        exact ⟨group, hfind, .inl hdeadline⟩
    · have hkept : k ∉ droppedKeys first := by
        intro hdropped
        rw [hfirst.gone k hdropped] at hfind
        cases hfind
      rw [hfirst.others k hkept] at hfind
      exact ⟨group, hfind, .inr ⟨hnone, hage⟩⟩
  · rintro ⟨group, hfind, hstale⟩
    have hpending : (state.groups.lookup k).isSome := Option.isSome_of_eq_some hfind
    by_cases hdropped : k ∈ droppedKeys first
    · exact .inl hdropped
    · rcases hstale with hdeadline | hage
      · exact .inl ((hexpired k).mpr
          (.inr ⟨tracked.mem_expired.mpr ⟨group, hfind, hdeadline⟩, hpending⟩))
      · rw [← hfirst.others k hdropped] at hfind
        exact .inr ⟨⟨group, hfind, hage⟩, hpending⟩

/-- What holds behind the drops and stays so while deadlines are armed and complete groups
flushed: the drops are as before, no dropped group is pending and no pending group is stale. -/
structure Swept (now : Int) (start : List Event) (keys : List Key) (state : RtpAssembler) :
    Prop where
  events : ∃ added, state.events = start ++ added ∧ droppedKeys added = keys
  gone : ∀ k ∈ keys, state.groups.lookup k = none
  fresh : ∀ k group, state.groups.lookup k = some group → ¬ Stale now group

theorem not_stale_iff :
    ¬ Stale now group ↔ group.repairDeadlineNs ≠ 0 ∧ now < group.repairDeadlineNs ∨
      group.repairDeadlineNs = 0 ∧ now - group.arrivalNs ≤ pendingGroupTtlNs := by
  unfold Stale
  by_cases hnone : group.repairDeadlineNs = 0 <;> simp [hnone]

theorem Swept.settle (hsettle : Settle now state next) (h : Swept now start keys state) :
    Swept now start keys next := by
  obtain ⟨added, hevents, hkeys⟩ := h.events
  cases hsettle with
  | arm k group hfind =>
    unfold armDeadline
    split
    case isFalse => exact h
    case isTrue hnone =>
      have hpending : k ∉ keys := by
        intro hdropped
        rw [h.gone k hdropped] at hfind
        cases hfind
      refine ⟨⟨added, hevents, hkeys⟩, ?_, ?_⟩
      · intro other hdropped
        have hne : other ≠ k := fun heq => hpending (heq ▸ hdropped)
        exact (AList.lookup_insert_ne hne).trans (h.gone other hdropped)
      · intro other found hother
        by_cases heq : other = k
        · rw [heq] at hother
          have hfound := Option.some.inj ((AList.lookup_insert _).symm.trans hother)
          have hold := not_stale_iff.mp (h.fresh k group hfind)
          rw [not_stale_iff, ← hfound]
          unfold avcRepairWaitNs
          simp only
          omega
        · exact h.fresh other found ((AList.lookup_insert_ne heq).symm.trans hother)
  | flush k group hfind hcomplete =>
    rw [flushGroup_eq now (AList.lookup_insert _)]
    have hothers : ∀ other, other ≠ k →
        ((state.setDeadline k group 0).groups.erase k).lookup other =
          state.groups.lookup other := by
      intro other hne
      dsimp only [setDeadline]
      rw [AList.lookup_erase_ne hne, AList.lookup_insert_ne hne]
    let flushed := flushedGroup state.pool { group with repairDeadlineNs := 0 }
      (sortedPackets group.pkts)
    refine ⟨⟨added ++ [.flush flushed], ?_, ?_⟩, ?_, ?_⟩
    · rw [← List.append_assoc, ← hevents]
      rfl
    · rw [droppedKeys, List.filterMap_append, ← hkeys]
      exact List.append_nil _
    · intro other hdropped
      by_cases heq : other = k
      · exact heq ▸ AList.lookup_erase _ _
      · exact (hothers other heq).trans (h.gone other hdropped)
    · intro other found hother
      have hne : other ≠ k := by
        rintro rfl
        cases (AList.lookup_erase _ _).symm.trans hother
      exact h.fresh other found ((hothers other hne).symm.trans hother)

/-- An eviction drops the groups that are stale when it begins, each of them once, and leaves
none pending that is stale. -/
theorem evictStale_exact {state : RtpAssembler} (reachable : Reachable state) (now : Int) :
    ∃ added, (state.evictStale now).events = state.events ++ added ∧
      (droppedKeys added).Nodup ∧
      (∀ k, k ∈ droppedKeys added ↔
        ∃ group, state.groups.lookup k = some group ∧ Stale now group) ∧
      (∀ k ∈ droppedKeys added, (state.evictStale now).groups.lookup k = none) ∧
      ∀ k group, (state.evictStale now).groups.lookup k = some group →
        group.repairDeadlineNs ≠ 0 ∧ now < group.repairDeadlineNs ∨
          group.repairDeadlineNs = 0 ∧ now - group.arrivalNs ≤ pendingGroupTtlNs := by
  obtain ⟨dropped, hdropped, hexact⟩ := dropStale_exact (Tracked.of_reachable reachable) now
  obtain ⟨settled, hsettles, heq⟩ := evictStale_eq state now
  have hswept : Swept now state.events (droppedKeys dropped) (state.dropStale now).1 := by
    refine ⟨⟨dropped, hdropped.events, rfl⟩, hdropped.gone, ?_⟩
    intro k group hfind hstale
    by_cases hgone : k ∈ droppedKeys dropped
    · rw [hdropped.gone k hgone] at hfind
      cases hfind
    · rw [hdropped.others k hgone] at hfind
      exact hgone ((hexact k).mpr ⟨group, hfind, hstale⟩)
  have hend := hsettles.invariant (fun _ _ => Swept.settle) hswept
  obtain ⟨added, hevents, hkeys⟩ := hend.events
  rw [heq]
  refine ⟨added, hevents, hkeys ▸ hdropped.nodup, hkeys ▸ hexact, hkeys ▸ hend.gone, ?_⟩
  intro k group hfind
  exact not_stale_iff.mp (hend.fresh k group hfind)

/-- A packet without a marker waits for the rest of its group until the group is too old. -/
theorem evictStale_exact_marker :
    Reachable ((new blankPool .avc).step (.queue 1 100 ⟨10, false, 0⟩ 0)) ∧
      ∃ added, (((new blankPool .avc).step (.queue 1 100 ⟨10, false, 0⟩ 0)).evictStale
          200000001).events = added ∧ (1, 100) ∈ droppedKeys added := by
  have reachable : Reachable ((new blankPool .avc).step (.queue 1 100 ⟨10, false, 0⟩ 0)) :=
    .step _ (.new blankPool .avc)
  obtain ⟨added, hevents, -, hexact, -⟩ := evictStale_exact reachable 200000001
  refine ⟨reachable, added, hevents, (hexact (1, 100)).mpr ?_⟩
  exact ⟨⟨1, 100, [⟨10, false, 0⟩], 0, 0, false⟩, by decide +kernel,
    .inr ⟨rfl, by decide⟩⟩

end RtpAssembler

end Scshr.Media
