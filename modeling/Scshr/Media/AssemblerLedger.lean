import Scshr.Media.AssemblerFrame

/-! The four containers of the assembler kept in step, and what follows for the
outcomes of an access unit: a key that has been flushed or dropped is remembered
until its time to live is over, and only a forgotten key can be collected again. -/
namespace Scshr.Media

open Common Lib AList
open List hiding mem_keys

def Event.key : Event → Key
  | .flush group => Media.key group.ssrc group.ts
  | .drop group _ => Media.key group.ssrc group.ts

namespace RtpAssembler

structure Ledger (state : RtpAssembler) : Prop where
  orderNodup : state.groupOrder.Nodup
  ordered : ∀ k, k ∈ state.groupOrder ↔ k ∈ state.groups.keys
  deadlinesNodup : state.deadlineOrder.Nodup
  deadlines : ∀ k, k ∈ state.deadlineOrder ↔
    ∃ group, state.groups.lookup k = some group ∧ group.repairDeadlineNs ≠ 0
  fresh : ∀ k ∈ state.groups.keys, state.recentlyFlushed.lookup k = none

def timedEvents : RtpAssembler → List AssemblerOp → List (Int × Event)
  | _, [] => []
  | state, op :: rest =>
      (((state.step op).events.drop state.events.length).map fun event => (op.time, event)) ++
        timedEvents (state.step op) rest

variable {state : RtpAssembler} {before : Int} {log : List (Int × Event)}

theorem mem_keys_iff : k ∈ state.groups.keys ↔ ∃ group, state.groups.lookup k = some group := by
  rw [← mem_keys, ← lookup_isSome, Option.isSome_iff_exists]

theorem addPacket_deadline (group : Group) (pkt : GroupPacket) :
    (addPacket group pkt).repairDeadlineNs = group.repairDeadlineNs := by
  unfold addPacket
  split <;> rfl

theorem new_ledger (pool : PacketPool) (codec : VideoCodec) : Ledger (new pool codec) := by
  constructor <;> simp [new]

namespace Ledger

variable {k : Key} {group : Group}

theorem armDeadline (h : Ledger state) (hclock : now + avcRepairWaitNs ≠ 0)
    (hfind : state.groups.lookup k = some group) : Ledger (state.armDeadline k group now) := by
  have hmem : k ∈ state.groups.keys := AssocMap.mem_of_lookup hfind
  have hkeys : ∀ other, other ∈ (state.groups.insert k
      { group with repairDeadlineNs := now + avcRepairWaitNs }).keys ↔
        other ∈ state.groups.keys := by
    intro other
    rw [← mem_keys, ← mem_keys, mem_insert]
    constructor
    · rintro (rfl | hother)
      · exact hmem
      · exact hother
    · exact .inr
  unfold RtpAssembler.armDeadline
  split
  · rename_i hzero
    have hnot : k ∉ state.deadlineOrder := by
      rw [h.deadlines]
      rintro ⟨found, hfound, hne⟩
      obtain rfl : group = found := Option.some_inj.mp (hfind.symm.trans hfound)
      exact hne hzero
    constructor
    · exact h.orderNodup
    · exact fun other => (h.ordered other).trans (hkeys other).symm
    · have hconcat := h.deadlinesNodup.concat hnot
      rwa [concat_eq_append] at hconcat
    · intro other
      dsimp only [setDeadline]
      rw [mem_append, mem_singleton]
      by_cases heq : other = k
      · subst heq
        simp [hclock]
      · rw [lookup_insert_ne heq, ← h.deadlines]
        simp [heq]
    · exact fun other hother => h.fresh other ((hkeys other).mp hother)
  · exact h

theorem close {next : RtpAssembler} (h : Ledger state) (hgone : next.groups.lookup k = none)
    (hframe : ∀ other, other ≠ k → next.groups.lookup other = state.groups.lookup other)
    (horder : next.groupOrder = state.groupOrder.filter (· ≠ k))
    (hdeadlines : next.deadlineOrder = state.deadlineOrder.filter (· ≠ k))
    (hflushed : next.recentlyFlushed = state.recentlyFlushed.insert k now) : Ledger next := by
  have hkeys : ∀ other, other ∈ next.groups.keys ↔ other ≠ k ∧ other ∈ state.groups.keys := by
    intro other
    rw [mem_keys_iff, mem_keys_iff]
    by_cases heq : other = k
    · subst heq
      simp [hgone]
    · rw [hframe other heq]
      simp [heq]
  constructor
  · rw [horder]
    exact h.orderNodup.filter _
  · intro other
    rw [horder, mem_filter, hkeys, h.ordered]
    simp [and_comm]
  · rw [hdeadlines]
    exact h.deadlinesNodup.filter _
  · intro other
    rw [hdeadlines, mem_filter, h.deadlines]
    by_cases heq : other = k
    · subst heq
      simp [hgone]
    · rw [hframe other heq]
      simp [heq]
  · intro other hother
    obtain ⟨hne, hold⟩ := (hkeys other).mp hother
    rw [hflushed, lookup_insert_ne hne]
    exact h.fresh other hold

theorem storePacket (h : Ledger state) (ssrc ts : UInt32) (pkt : GroupPacket) (now : Int)
    (hfresh : state.recentlyFlushed.lookup (key ssrc ts) = none) :
    Ledger (state.storePacket ssrc ts pkt now) := by
  have hkeys : ∀ other, other ∈ (state.storePacket ssrc ts pkt now).groups.keys ↔
      other = key ssrc ts ∨ other ∈ state.groups.keys := by
    intro other
    rw [← mem_keys, ← mem_keys]
    exact mem_insert _
  constructor
  · dsimp only [RtpAssembler.storePacket]
    split
    · exact h.orderNodup
    · rename_i hnone
      rw [← concat_eq_append]
      apply h.orderNodup.concat
      rw [h.ordered, mem_keys_iff]
      simpa [Option.isSome_iff_exists] using hnone
  · intro other
    rw [hkeys]
    dsimp only [RtpAssembler.storePacket]
    split
    · rename_i hsome
      rw [h.ordered]
      constructor
      · exact .inr
      · rintro (rfl | hother)
        · exact mem_keys_iff.mpr (Option.isSome_iff_exists.mp hsome)
        · exact hother
    · rw [mem_append, mem_singleton, h.ordered, or_comm]
  · exact h.deadlinesNodup
  · intro other
    dsimp only [RtpAssembler.storePacket]
    rw [h.deadlines]
    by_cases heq : other = key ssrc ts
    · subst heq
      rw [lookup_insert]
      unfold findOrCreate
      cases hold : state.groups.lookup (key ssrc ts) with
      | none => simp [addPacket]
      | some group => simp [addPacket_deadline]
    · rw [lookup_insert_ne heq]
  · intro other hother
    rcases (hkeys other).mp hother with rfl | hold
    · exact hfresh
    · exact h.fresh other hold

theorem release (h : Ledger state) (slot : UInt32) :
    Ledger { state with pool := state.pool.release slot } :=
  ⟨h.orderNodup, h.ordered, h.deadlinesNodup, h.deadlines, h.fresh⟩

theorem prune (h : Ledger state) (now : Int) :
    Ledger { state with
      recentlyFlushed := state.recentlyFlushed.keepIf fun flushedAt =>
        now - flushedAt ≤ flushedDedupTtlNs } := by
  refine ⟨h.orderNodup, h.ordered, h.deadlinesNodup, h.deadlines, ?_⟩
  intro k hk
  rw [AssocMap.lookup_keepIf, h.fresh k hk]
  rfl

end Ledger

/-- The log of a run up to now: every closed key is still remembered, or its
time to live is over. -/
structure Accounted (now : Int) (log : List (Int × Event)) (state : RtpAssembler) : Prop where
  keyed : WellKeyed state
  ledger : Ledger state
  past : ∀ entry ∈ log, entry.1 ≤ now
  remembered : ∀ entry ∈ log,
    (∃ flushedAt, state.recentlyFlushed.lookup entry.2.key = some flushedAt ∧
      entry.1 ≤ flushedAt) ∨ flushedDedupTtlNs < now - entry.1
  apart : log.Pairwise fun early late =>
    early.2.key = late.2.key → flushedDedupTtlNs < late.1 - early.1

namespace Accounted

variable {now : Int} {next : RtpAssembler} {k : Key} {group : Group}

theorem later (h : Accounted now log state) (hle : now ≤ time) : Accounted time log state where
  keyed := h.keyed
  ledger := h.ledger
  past entry hentry := (h.past entry hentry).trans hle
  remembered entry hentry := by
    rcases h.remembered entry hentry with hknown | hover
    · exact .inl hknown
    · exact .inr (by omega)
  apart := h.apart

theorem quiet (h : Accounted now log state) (hkeyed : WellKeyed next) (hledger : Ledger next)
    (hflushed : next.recentlyFlushed = state.recentlyFlushed) : Accounted now log next where
  keyed := hkeyed
  ledger := hledger
  past := h.past
  remembered := by rw [hflushed]; exact h.remembered
  apart := h.apart

/-- Closing a pending group: its key was forgotten, so every earlier outcome of
the key is out of date. -/
theorem close (h : Accounted now log state) (hfind : state.groups.lookup k = some group)
    (hevent : event.key = k) (hkeyed : WellKeyed next) (hledger : Ledger next)
    (hflushed : next.recentlyFlushed = state.recentlyFlushed.insert k now) :
    Accounted now (log ++ [(now, event)]) next := by
  have hforgotten := h.ledger.fresh k (AssocMap.mem_of_lookup hfind)
  constructor
  · exact hkeyed
  · exact hledger
  · intro entry hentry
    rcases mem_append.mp hentry with hold | hnew
    · exact h.past entry hold
    · rw [mem_singleton.mp hnew]
  · intro entry hentry
    rw [hflushed]
    rcases mem_append.mp hentry with hold | hnew
    · by_cases heq : entry.2.key = k
      · rw [heq, lookup_insert]
        exact .inl ⟨now, rfl, h.past entry hold⟩
      · rw [lookup_insert_ne heq]
        exact h.remembered entry hold
    · rw [mem_singleton.mp hnew, hevent, lookup_insert]
      exact .inl ⟨now, rfl, Int.le_refl now⟩
  · apply pairwise_append.mpr
    refine ⟨h.apart, pairwise_singleton _ _, ?_⟩
    intro early hearly late hlate hsame
    obtain rfl := mem_singleton.mp hlate
    rcases h.remembered early hearly with ⟨flushedAt, hknown, -⟩ | hover
    · rw [hsame, hevent, hforgotten] at hknown
      cases hknown
    · exact hover

theorem prune (h : Accounted now log state) :
    Accounted now log { state with
      recentlyFlushed := state.recentlyFlushed.keepIf fun flushedAt =>
        now - flushedAt ≤ flushedDedupTtlNs } where
  keyed := ⟨h.keyed.keyed, h.keyed.listed⟩
  ledger := h.ledger.prune now
  past := h.past
  remembered entry hentry := by
    dsimp only
    rw [AssocMap.lookup_keepIf]
    rcases h.remembered entry hentry with ⟨flushedAt, hknown, hle⟩ | hover
    · by_cases hkeep : now - flushedAt ≤ flushedDedupTtlNs
      · refine .inl ⟨flushedAt, ?_, hle⟩
        rw [hknown, Option.filter_some, if_pos (decide_eq_true hkeep)]
      · exact .inr (by omega)
    · exact .inr hover
  apart := h.apart

end Accounted

/-- Inside a call: the events so far extend those at its start, and the log with
them, all at the time of the call, is accounted for. -/
def Logged (now : Int) (start : List Event) (log : List (Int × Event))
    (state : RtpAssembler) : Prop :=
  ∃ added, state.events = start ++ added ∧
    Accounted now (log ++ added.map fun event => (now, event)) state

namespace Logged

variable {now : Int} {start : List Event} {next : RtpAssembler} {k : Key} {group : Group}

theorem close (h : Logged now start log state) (hchange : Change state next)
    (hfind : state.groups.lookup k = some group) (hevent : event.key = key group.ssrc group.ts)
    (hgone : next.groups.lookup k = none)
    (hframe : ∀ other, other ≠ k → next.groups.lookup other = state.groups.lookup other)
    (horder : next.groupOrder = state.groupOrder.filter (· ≠ k))
    (hdeadlines : next.deadlineOrder = state.deadlineOrder.filter (· ≠ k))
    (hflushed : next.recentlyFlushed = state.recentlyFlushed.insert k now)
    (hevents : next.events = state.events ++ [event]) : Logged now start log next := by
  obtain ⟨added, hadded, haccounted⟩ := h
  refine ⟨added ++ [event], by rw [hevents, hadded, append_assoc], ?_⟩
  have hkey := hevent.trans (haccounted.keyed.keyed k group hfind)
  have hledger := haccounted.ledger.close hgone hframe horder hdeadlines hflushed
  have hclosed := haccounted.close hfind hkey (hchange.wellKeyed haccounted.keyed) hledger hflushed
  rwa [append_assoc, ← map_singleton, ← map_append] at hclosed

theorem settle (hclock : now + avcRepairWaitNs ≠ 0) (hsettle : Settle now state next)
    (h : Logged now start log state) : Logged now start log next := by
  have hchange := hsettle.change
  cases hsettle with
  | arm k group hfind =>
    obtain ⟨added, hadded, haccounted⟩ := h
    have hquiet := haccounted.quiet (hchange.wellKeyed haccounted.keyed)
      (haccounted.ledger.armDeadline hclock hfind)
      (by unfold armDeadline setDeadline; split <;> rfl)
    refine ⟨added, ?_, hquiet⟩
    unfold armDeadline setDeadline
    split <;> exact hadded
  | flush k group hfind hcomplete =>
    rw [flushGroup_eq now (lookup_insert _)] at hchange ⊢
    apply h.close hchange hfind rfl (lookup_erase _ _) _ rfl rfl rfl rfl
    intro other hne
    dsimp only [setDeadline]
    rw [lookup_erase_ne hne, lookup_insert_ne hne]

theorem flushMarked (h : Logged now start log state) (hfind : state.groups.lookup k = some group)
    (hcodec : state.codec ≠ .avc) (hmarker : group.hasMarker = true) :
    Logged now start log (state.flushGroup k now) := by
  have hchange := Change.flushMarked state k group now hfind hcodec hmarker
  rw [flushGroup_eq now hfind] at hchange ⊢
  apply h.close hchange hfind rfl (lookup_erase _ _) _ rfl rfl rfl rfl
  exact fun other hne => lookup_erase_ne hne

theorem dropGroup (h : Logged now start log state) (hfind : state.groups.lookup k = some group)
    (reason : String) :
    Logged now start log (RtpAssembler.dropGroup reason now (state, []) k).1 := by
  have hchange := Change.drop state k group reason now hfind
  unfold RtpAssembler.dropGroup at hchange ⊢
  simp only [hfind] at hchange ⊢
  apply h.close hchange hfind rfl (lookup_erase _ _) _ rfl rfl rfl rfl
  exact fun other hne => lookup_erase_ne hne

end Logged

theorem Accounted.step (h : Accounted before log state) (hle : before ≤ op.time)
    (hclock : op.time + avcRepairWaitNs ≠ 0) : Logged op.time state.events log (state.step op) := by
  have hstart : Accounted op.time log state := h.later hle
  have hlogged : Logged op.time state.events log state :=
    ⟨[], (append_nil _).symm, by simpa using hstart⟩
  cases op with
  | queue ssrc ts pkt now =>
    have hstored (hfresh : state.recentlyFlushed.lookup (key ssrc ts) = none) :
        Logged now state.events log (state.storePacket ssrc ts pkt now) := by
      refine ⟨[], (append_nil _).symm, ?_⟩
      rw [map_nil, append_nil]
      exact hstart.quiet (hstart.keyed.storePacket ssrc ts pkt now)
        (hstart.ledger.storePacket ssrc ts pkt now hfresh) rfl
    unfold RtpAssembler.step
    dsimp only [AssemblerOp.time] at *
    rcases queuePacket_cases state ssrc ts pkt now with
      ⟨-, heq⟩ | ⟨hfresh, ⟨-, heq⟩ | ⟨hcodec, hmarker, heq⟩ | ⟨-, hsettles⟩⟩
    · rw [heq]
      refine ⟨[], (append_nil _).symm, ?_⟩
      rw [map_nil, append_nil]
      exact hstart.quiet ((Change.release state pkt.slot).wellKeyed hstart.keyed)
        (hstart.ledger.release pkt.slot) rfl
    · rw [heq]
      exact hstored hfresh
    · rw [heq]
      exact (hstored hfresh).flushMarked (storePacket_lookup state ssrc ts pkt now) hcodec hmarker
    · exact hsettles.invariant (fun _ _ hsettle => Logged.settle hclock hsettle) (hstored hfresh)
  | evict now =>
    obtain ⟨settled, hsettles, heq⟩ := evictStale_eq state now
    have hdropped : Logged now state.events log (state.dropStale now).1 := by
      apply dropStale_invariant _ hlogged
      intro state k group reason hfind hstate
      exact hstate.dropGroup hfind reason
    obtain ⟨added, hadded, haccounted⟩ :=
      hsettles.invariant (fun _ _ hsettle => Logged.settle hclock hsettle) hdropped
    unfold RtpAssembler.step
    dsimp only [AssemblerOp.time]
    rw [heq]
    exact ⟨added, hadded, haccounted.prune⟩

theorem new_accounted (pool : PacketPool) (codec : VideoCodec) (now : Int) :
    Accounted now [] (new pool codec) where
  keyed := new_wellKeyed pool codec
  ledger := new_ledger pool codec
  past := by simp
  remembered := by simp
  apart := .nil

theorem Accounted.run (h : Accounted before log state) (hbefore : ∀ op ∈ ops, before ≤ op.time)
    (hmono : ops.Pairwise fun early late => early.time ≤ late.time)
    (hclock : ∀ op ∈ ops, op.time + avcRepairWaitNs ≠ 0) :
    ∃ last, Accounted last (log ++ timedEvents state ops) (state.run ops) ∧
      (state.run ops).events = state.events ++ (timedEvents state ops).map Prod.snd := by
  induction ops generalizing before log state with
  | nil =>
    refine ⟨before, ?_, (append_nil _).symm⟩
    rwa [timedEvents, append_nil]
  | cons op rest ih =>
    obtain ⟨hfirst, hrest⟩ := pairwise_cons.mp hmono
    obtain ⟨added, hadded, haccounted⟩ :=
      h.step (hbefore op mem_cons_self) (hclock op mem_cons_self)
    obtain ⟨last, hlast, hevents⟩ := ih haccounted hfirst hrest
      (fun other hother => hclock other (mem_cons_of_mem _ hother))
    have hcons : state.run (op :: rest) = (state.step op).run rest := rfl
    have hdrop : (state.step op).events.drop state.events.length = added := by
      rw [hadded, drop_left]
    refine ⟨last, ?_, ?_⟩
    · rwa [hcons, timedEvents, hdrop, ← append_assoc]
    · rw [hcons, hevents, timedEvents, hdrop, hadded, append_assoc, map_append,
        map_map]
      simp [Function.comp_def]

/-- In every run with nondecreasing times the containers agree, and two outcomes
of one access unit are further apart than the time to live of a closed key.  A
deadline of zero means none, so the clock must not arm one at exactly zero. -/
theorem one_outcome_per_unit (pool : PacketPool) (codec : VideoCodec) (ops : List AssemblerOp)
    (hmono : ops.Pairwise fun early late => early.time ≤ late.time)
    (hclock : ∀ op ∈ ops, op.time + avcRepairWaitNs ≠ 0) :
    Ledger ((new pool codec).run ops) ∧
    ((new pool codec).run ops).events = (timedEvents (new pool codec) ops).map Prod.snd ∧
    (timedEvents (new pool codec) ops).Pairwise fun early late =>
      early.2.key = late.2.key → flushedDedupTtlNs < late.1 - early.1 := by
  obtain ⟨start, hstart⟩ : ∃ start, ∀ op ∈ ops, start ≤ op.time := by
    cases ops with
    | nil => exact ⟨0, by simp⟩
    | cons op rest =>
      refine ⟨op.time, forall_mem_cons.mpr ⟨Int.le_refl _, ?_⟩⟩
      exact (pairwise_cons.mp hmono).1
  obtain ⟨last, haccounted, hevents⟩ :=
    (new_accounted pool codec start).run hstart hmono hclock
  exact ⟨haccounted.ledger, hevents, haccounted.apart⟩

def repeatedUnit : List AssemblerOp :=
  [.queue 1 100 ⟨10, true, 0⟩ 0, .queue 1 100 ⟨10, true, 1⟩ 1000000, .evict 2000000001,
    .queue 1 100 ⟨11, true, 2⟩ 2000000002]

theorem one_outcome_per_unit_repeatedUnit :
    Ledger ((new blankPool .avc).run repeatedUnit) ∧
    ((timedEvents (new blankPool .avc) repeatedUnit).map fun entry => (entry.1, entry.2.key)) =
      [(0, (1, 100)), (2000000002, (1, 100))] ∧
    (timedEvents (new blankPool .avc) repeatedUnit).Pairwise fun early late =>
      early.2.key = late.2.key → flushedDedupTtlNs < late.1 - early.1 := by
  have hrun := one_outcome_per_unit blankPool .avc repeatedUnit (by decide) (by decide)
  exact ⟨hrun.1, by decide +kernel, hrun.2.2⟩

end RtpAssembler

end Scshr.Media
