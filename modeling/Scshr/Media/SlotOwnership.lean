import Mathlib.Algebra.Order.Group.Multiset
import Mathlib.Tactic.Abel
import Scshr.Media.AssemblerContinuity

/-! Who owns a packet slot while the assembler has it: the free list of the pool
or a packet of a pending group.  Every call takes over exactly the slot it is
given and every slot of a closed group returns to the free list once. -/
namespace Scshr.Media.RtpAssembler

open Common Lib List

def reset (state : RtpAssembler) : RtpAssembler :=
  { state with
    pool := releaseGroup state.pool (state.groups.entries.flatMap fun entry => entry.2.pkts)
    groups := ∅
    groupOrder := []
    deadlineOrder := []
    recentlyFlushed := ∅
    lastMarkerSeq := ∅ }

def slotsOf (pkts : List GroupPacket) : Multiset UInt32 := (pkts.map GroupPacket.slot : List UInt32)

def held (state : RtpAssembler) : Multiset UInt32 :=
  AssocMap.total (fun group => slotsOf group.pkts) state.groups

def owned (state : RtpAssembler) : Multiset UInt32 :=
  (state.pool.free : Multiset UInt32) + state.held

variable {state next : RtpAssembler} {k : Key} {group : Group} {now : Int}

theorem slotsOf_append (left right : List GroupPacket) :
    slotsOf (left ++ right) = slotsOf left + slotsOf right := by
  simp [slotsOf]

theorem free_release (pool : PacketPool) (slot : UInt32) :
    ((pool.release slot).free : Multiset UInt32) = {slot} + (pool.free : Multiset UInt32) := by
  rw [Multiset.singleton_add, PacketPool.release, Multiset.cons_coe]

theorem free_releaseGroup (pool : PacketPool) (pkts : List GroupPacket) :
    ((releaseGroup pool pkts).free : Multiset UInt32) =
      slotsOf pkts + (pool.free : Multiset UInt32) := by
  induction pkts generalizing pool with
  | nil => simp [releaseGroup, slotsOf]
  | cons pkt rest ih =>
    have hcons : slotsOf (pkt :: rest) = {pkt.slot} + slotsOf rest := by
      rw [Multiset.singleton_add]
      rfl
    have hrelease := ih (pool.release pkt.slot)
    rw [free_release] at hrelease
    rw [hcons]
    apply Eq.trans hrelease
    abel

theorem owned_close (hfind : state.groups.lookup k = some group)
    (hgroups : next.groups = state.groups.erase k)
    (hpool : next.pool = releaseGroup state.pool group.pkts) : next.owned = state.owned := by
  unfold owned held
  rw [hpool, hgroups, free_releaseGroup, AssocMap.total_erase _ hfind]
  abel

theorem owned_setDeadline (deadline : Int) (hfind : state.groups.lookup k = some group) :
    (state.setDeadline k group deadline).owned = state.owned := by
  unfold owned held setDeadline
  rw [AssocMap.total_insert, AssocMap.total_erase _ hfind]

theorem owned_settle (h : Settle now state next) : next.owned = state.owned := by
  cases h with
  | arm k group hfind =>
    unfold armDeadline
    split
    · exact owned_setDeadline (now + avcRepairWaitNs) hfind
    · rfl
  | flush k group hfind hcomplete =>
    rw [flushGroup_eq now (AList.lookup_insert _), ← owned_setDeadline 0 hfind]
    exact owned_close (AList.lookup_insert _) rfl rfl

theorem owned_settles (h : Settles now state next) : next.owned = state.owned := by
  induction h with
  | refl => rfl
  | tail _ hsettle ih => exact (owned_settle hsettle).trans ih

theorem owned_storePacket (state : RtpAssembler) (ssrc ts : UInt32) (pkt : GroupPacket)
    (now : Int) : (state.storePacket ssrc ts pkt now).owned = {pkt.slot} + state.owned := by
  have hheld : state.held = slotsOf (state.findOrCreate ssrc ts now).pkts +
      AssocMap.total (fun group => slotsOf group.pkts) (state.groups.erase (key ssrc ts)) := by
    unfold held findOrCreate
    cases hfind : state.groups.lookup (key ssrc ts) with
    | none =>
      rw [AssocMap.erase_of_lookup_none hfind]
      exact (zero_add _).symm
    | some group => exact AssocMap.total_erase _ hfind
  unfold owned
  rw [hheld]
  unfold held storePacket addPacket
  dsimp only
  rw [AssocMap.total_insert]
  split
  · rw [free_release, add_assoc]
  · have hone : slotsOf [pkt] = {pkt.slot} := rfl
    rw [slotsOf_append, hone]
    abel

theorem owned_queuePacket (state : RtpAssembler) (ssrc ts : UInt32) (pkt : GroupPacket)
    (now : Int) : (state.queuePacket ssrc ts pkt now).owned = {pkt.slot} + state.owned := by
  rcases queuePacket_cases state ssrc ts pkt now with
    ⟨-, heq⟩ | ⟨-, ⟨-, heq⟩ | ⟨-, -, heq⟩ | ⟨-, hsettles⟩⟩
  · rw [heq]
    unfold owned
    rw [free_release, add_assoc]
    rfl
  · rw [heq, owned_storePacket]
  · have hfind := storePacket_lookup state ssrc ts pkt now
    rw [heq, ← owned_storePacket, flushGroup_eq now hfind]
    exact owned_close hfind rfl rfl
  · rw [owned_settles hsettles, owned_storePacket]

theorem owned_dropGroup (hfind : state.groups.lookup k = some group) (reason : String) (now : Int) :
    (dropGroup reason now (state, []) k).1.owned = state.owned := by
  unfold dropGroup
  simp only [hfind]
  exact owned_close hfind rfl rfl

theorem owned_evictStale (state : RtpAssembler) (now : Int) :
    (state.evictStale now).owned = state.owned := by
  obtain ⟨settled, hsettles, heq⟩ := evictStale_eq state now
  rw [heq]
  apply (owned_settles hsettles).trans
  apply @dropStale_invariant state now (fun next => next.owned = state.owned) _ rfl
  intro next k group reason hfind hnext
  rw [owned_dropGroup hfind, hnext]

theorem owned_reset (state : RtpAssembler) : state.reset.owned = state.owned := by
  have hheld : slotsOf (state.groups.entries.flatMap fun entry => entry.2.pkts) = state.held := by
    unfold held AssocMap.total
    induction state.groups.entries with
    | nil => rfl
    | cons entry rest ih =>
      rw [flatMap_cons, slotsOf_append, ih, map_cons, sum_cons]
  unfold owned
  rw [reset, free_releaseGroup, hheld]
  unfold held
  rw [AssocMap.total_empty]
  abel

end Scshr.Media.RtpAssembler
