import Scshr.Common.Bytes
import Scshr.Lib.AssocMap
import Scshr.Lib.Circular

/-! The access-unit assembler (`media/rtp_assembler.cpp`) over the packet pool
(`media/packet_pool.h`).  Callbacks become an event log in call order, times are
integers in nanoseconds, and the packed 64-bit key is the pair it packs. -/
namespace Scshr.Media

open Common Lib

structure PacketSlot where
  data : Bytes
  tRecvNs : Int
  payloadOff : Nat
  payloadLen : Nat

structure PacketPool where
  slots : UInt32 → PacketSlot
  free : List UInt32

def PacketPool.release (pool : PacketPool) (slot : UInt32) : PacketPool :=
  { pool with free := slot :: pool.free }

inductive VideoCodec where
  | hevc
  | avc
  deriving DecidableEq, Repr

structure GroupPacket where
  seq : UInt16
  marker : Bool
  slot : UInt32
  deriving DecidableEq, Repr

abbrev Key := UInt32 × UInt32

def key (ssrc ts : UInt32) : Key := (ssrc, ts)

structure Group where
  ssrc : UInt32
  ts : UInt32
  pkts : List GroupPacket
  arrivalNs : Int
  /-- Zero means no deadline. -/
  repairDeadlineNs : Int := 0
  hasMarker : Bool := false
  deriving DecidableEq, Repr

structure FlushedGroup where
  ssrc : UInt32
  ts : UInt32
  packets : List GroupPacket
  payloads : List Bytes
  incomplete : Bool
  tFirstNs : Int
  tLastNs : Int
  bytes : Nat
  deriving DecidableEq, Repr

structure DroppedGroup where
  ssrc : UInt32
  ts : UInt32
  hadMarker : Bool
  reason : String
  packets : Nat
  ageNs : Int
  deriving DecidableEq, Repr

/-- An `on_flush` or `on_drop` call.  A drop also carries the sorted packets
that `drop_group` has at hand; the callback itself only gets their number. -/
inductive Event where
  | flush (group : FlushedGroup)
  | drop (group : DroppedGroup) (sorted : List GroupPacket)
  deriving DecidableEq, Repr

structure RtpAssembler where
  codec : VideoCodec
  pool : PacketPool
  groups : AssocMap Key Group
  groupOrder : List Key
  deadlineOrder : List Key
  recentlyFlushed : AssocMap Key Int
  lastMarkerSeq : AssocMap UInt32 UInt16
  incompleteFlushed : Nat
  droppedGroups : Nat
  events : List Event

def avcRepairWaitNs : Int := 75000000
def pendingGroupTtlNs : Int := 200000000
def flushedDedupTtlNs : Int := 2000000000

namespace RtpAssembler

def blankPool : PacketPool := ⟨fun _ => ⟨[], 0, 0, 0⟩, []⟩

def new (pool : PacketPool) (codec : VideoCodec) : RtpAssembler where
  codec := codec
  pool := pool
  groups := ∅
  groupOrder := []
  deadlineOrder := []
  recentlyFlushed := ∅
  lastMarkerSeq := ∅
  incompleteFlushed := 0
  droppedGroups := 0
  events := []

def releaseGroup (pool : PacketPool) (pkts : List GroupPacket) : PacketPool :=
  pkts.foldl (fun pool pkt => pool.release pkt.slot) pool

/-- `std::sort` by sequence number, then the rotation behind the largest
circular gap.  Sequence numbers in a group are distinct, so the instability of
the library sort does not show. -/
def sortedPackets (pkts : List GroupPacket) : List GroupPacket :=
  Circular.sort GroupPacket.seq pkts

def hasGap : List GroupPacket → Bool
  | left :: right :: rest => decide (right.seq - left.seq > 1) || hasGap (right :: rest)
  | _ => false

def lastMarker (sorted : List GroupPacket) : Option UInt16 :=
  (sorted.reverse.find? GroupPacket.marker).map GroupPacket.seq

def groupComplete (anchor : Option UInt16) (group : Group) (sorted : List GroupPacket) : Bool :=
  match sorted.head?, sorted.getLast? with
  | some front, some back =>
      group.hasMarker && back.marker && !hasGap sorted &&
        match anchor with
        | none => true
        | some seq => front.seq == seq + 1
  | _, _ => false

/-- The sort key of `ordered_keys`: distance from the anchor, then arrival.
Without an anchor only the arrival counts. -/
def groupRank (anchor : Option UInt16) (group : Group) : Nat × Int :=
  match anchor with
  | none => (0, group.arrivalNs)
  | some seq =>
      match (sortedPackets group.pkts).head? with
      | none => (10 ^ 18, group.arrivalNs)
      | some front => ((front.seq - (seq + 1)).toNat, group.arrivalNs)

def rankLe (left right : (Nat × Int) × Key) : Prop :=
  left.1.1 < right.1.1 ∨ left.1.1 = right.1.1 ∧ left.1.2 ≤ right.1.2

instance : DecidableRel rankLe := fun _ _ => inferInstanceAs (Decidable (_ ∨ _))

def rankedKeys (state : RtpAssembler) (ssrc : UInt32) : List ((Nat × Int) × Key) :=
  state.groupOrder.filterMap fun k =>
    match state.groups.lookup k with
    | some group =>
        if group.ssrc = ssrc then
          some (groupRank (state.lastMarkerSeq.lookup ssrc) group, k)
        else none
    | none => none

def orderedKeys (state : RtpAssembler) (ssrc : UInt32) : List Key :=
  ((state.rankedKeys ssrc).insertionSort rankLe).map Prod.snd

/-- Remember the last marker of a flushed group; without one the anchor stays. -/
def anchorAfterFlush (anchors : AssocMap UInt32 UInt16) (ssrc : UInt32)
    (sorted : List GroupPacket) : AssocMap UInt32 UInt16 :=
  match lastMarker sorted with
  | some seq => anchors.insert ssrc seq
  | none => anchors

/-- A dropped group without a marker makes the anchor unknown. -/
def anchorAfterDrop (anchors : AssocMap UInt32 UInt16) (ssrc : UInt32)
    (sorted : List GroupPacket) : AssocMap UInt32 UInt16 :=
  match lastMarker sorted with
  | some seq => anchors.insert ssrc seq
  | none => anchors.erase ssrc

def flushedGroup (pool : PacketPool) (group : Group) (sorted : List GroupPacket) : FlushedGroup :=
  let slots := sorted.map fun pkt => pool.slots pkt.slot
  { ssrc := group.ssrc
    ts := group.ts
    packets := sorted
    payloads := slots.map fun slot => (slot.data.drop slot.payloadOff).take slot.payloadLen
    incomplete := hasGap sorted
    tFirstNs := slots.foldl (fun first slot => min first slot.tRecvNs) (2 ^ 63 - 1)
    tLastNs := slots.foldl (fun last slot => max last slot.tRecvNs) 0
    bytes := (slots.map PacketSlot.payloadLen).sum }

def flushGroup (state : RtpAssembler) (k : Key) (now : Int) : RtpAssembler :=
  match state.groups.lookup k with
  | none => state
  | some group =>
      let sorted := sortedPackets group.pkts
      let flushed := flushedGroup state.pool group sorted
      { state with
        groups := state.groups.erase k
        groupOrder := state.groupOrder.filter (· ≠ k)
        deadlineOrder := state.deadlineOrder.filter (· ≠ k)
        recentlyFlushed := state.recentlyFlushed.insert k now
        lastMarkerSeq := anchorAfterFlush state.lastMarkerSeq group.ssrc sorted
        incompleteFlushed := state.incompleteFlushed + if flushed.incomplete then 1 else 0
        events := state.events ++ [.flush flushed]
        pool := releaseGroup state.pool group.pkts }

def setDeadline (state : RtpAssembler) (k : Key) (group : Group) (deadline : Int) : RtpAssembler :=
  { state with groups := state.groups.insert k { group with repairDeadlineNs := deadline } }

def armDeadline (state : RtpAssembler) (k : Key) (group : Group) (now : Int) : RtpAssembler :=
  if group.repairDeadlineNs = 0 then
    { state.setDeadline k group (now + avcRepairWaitNs) with
      deadlineOrder := state.deadlineOrder ++ [k] }
  else state

theorem flushGroup_shrinks {state : RtpAssembler} {k : Key} {group : Group} (now : Int)
    (h : state.groups.lookup k = some group) :
    ((state.setDeadline k group 0).flushGroup k now).groups.keys.length <
      state.groups.keys.length := by
  unfold flushGroup setDeadline
  simp only [AList.lookup_insert]
  exact AssocMap.length_keys_erase_insert h

def flushReady (state : RtpAssembler) (ssrc : UInt32) (now : Int) : RtpAssembler :=
  match state.orderedKeys ssrc with
  | [] => state
  | k :: _ =>
      match _hfind : state.groups.lookup k with
      | none => state
      | some group =>
          if groupComplete (state.lastMarkerSeq.lookup group.ssrc) group
              (sortedPackets group.pkts) then
            flushReady ((state.setDeadline k group 0).flushGroup k now) ssrc now
          else state.armDeadline k group now
termination_by state.groups.keys.length
decreasing_by exact flushGroup_shrinks now _hfind

def armMissingMarker (now : Int) (state : RtpAssembler) (k : Key) : RtpAssembler :=
  match state.groups.lookup k with
  | none => state
  | some other => if other.hasMarker then state else state.armDeadline k other now

def blocksLater (state : RtpAssembler) (k : Key) : Bool :=
  match state.groups.lookup k with
  | none => false
  | some other => other.repairDeadlineNs ≠ 0

def queueAvc (state : RtpAssembler) (k : Key) (group : Group) (now : Int) : RtpAssembler :=
  let earlier := (state.orderedKeys group.ssrc).takeWhile (· ≠ k)
  let state := earlier.foldl (armMissingMarker now) state
  if earlier.any state.blocksLater then state
  else if groupComplete (state.lastMarkerSeq.lookup group.ssrc) group
      (sortedPackets group.pkts) then
    ((state.setDeadline k group 0).flushGroup k now).flushReady group.ssrc now
  else state.armDeadline k group now

def findOrCreate (state : RtpAssembler) (ssrc ts : UInt32) (now : Int) : Group :=
  (state.groups.lookup (key ssrc ts)).getD
    { ssrc := ssrc, ts := ts, pkts := [], arrivalNs := now }

def addPacket (group : Group) (pkt : GroupPacket) : Group :=
  if group.pkts.any (·.seq == pkt.seq) then group
  else { group with pkts := group.pkts ++ [pkt], hasMarker := group.hasMarker || pkt.marker }

/-- The state after the packet has joined its group; a duplicate's slot goes
back to the pool. -/
def storePacket (state : RtpAssembler) (ssrc ts : UInt32) (pkt : GroupPacket) (now : Int) :
    RtpAssembler :=
  let k := key ssrc ts
  let group := state.findOrCreate ssrc ts now
  { state with
    groups := state.groups.insert k (addPacket group pkt)
    groupOrder :=
      if (state.groups.lookup k).isSome then state.groupOrder else state.groupOrder ++ [k]
    pool := if group.pkts.any (·.seq == pkt.seq) then state.pool.release pkt.slot else state.pool }

def queuePacket (state : RtpAssembler) (ssrc ts : UInt32) (pkt : GroupPacket) (now : Int) :
    RtpAssembler :=
  if (state.recentlyFlushed.lookup (key ssrc ts)).isSome then
    { state with pool := state.pool.release pkt.slot }
  else
    let group := addPacket (state.findOrCreate ssrc ts now) pkt
    let stored := state.storePacket ssrc ts pkt now
    if !group.hasMarker then stored
    else if state.codec ≠ .avc then stored.flushGroup (key ssrc ts) now
    else stored.queueAvc (key ssrc ts) group now

/-- `drop_group`; the second component is the set of SSRCs to re-examine. -/
def dropGroup (reason : String) (now : Int) (state : RtpAssembler × List UInt32) (k : Key) :
    RtpAssembler × List UInt32 :=
  match state.1.groups.lookup k with
  | none => state
  | some group =>
      let sorted := sortedPackets group.pkts
      let dropped : DroppedGroup :=
        { ssrc := group.ssrc
          ts := group.ts
          hadMarker := (lastMarker sorted).isSome
          reason := reason
          packets := group.pkts.length
          ageNs := now - group.arrivalNs }
      ({ state.1 with
          groups := state.1.groups.erase k
          groupOrder := state.1.groupOrder.filter (· ≠ k)
          deadlineOrder := state.1.deadlineOrder.filter (· ≠ k)
          recentlyFlushed := state.1.recentlyFlushed.insert k now
          lastMarkerSeq := anchorAfterDrop state.1.lastMarkerSeq group.ssrc sorted
          droppedGroups := state.1.droppedGroups + 1
          events := state.1.events ++ [.drop dropped sorted]
          pool := releaseGroup state.1.pool group.pkts },
        state.2 ++ [group.ssrc])

def repairExpired (state : RtpAssembler) (now : Int) (k : Key) : Bool :=
  match state.groups.lookup k with
  | none => false
  | some group => group.repairDeadlineNs ≠ 0 && group.repairDeadlineNs ≤ now

def markerExpired (state : RtpAssembler) (now : Int) (k : Key) : Bool :=
  match state.groups.lookup k with
  | none => false
  | some group => group.repairDeadlineNs = 0 && pendingGroupTtlNs < now - group.arrivalNs

def dropStale (state : RtpAssembler) (now : Int) : RtpAssembler × List UInt32 :=
  let expired := state.deadlineOrder.filter (state.repairExpired now)
  let first := expired.foldl (dropGroup "NACK/reorder timeout" now) (state, [])
  let ttl := first.1.groupOrder.filter (first.1.markerExpired now)
  ttl.foldl (dropGroup "RTP marker timeout" now) first

/-- A `std::set` iterates without repetition and in increasing order. -/
def setOrder (ssrcs : List UInt32) : List UInt32 :=
  ssrcs.dedup.insertionSort fun left right => left.toNat ≤ right.toNat

def evictStale (state : RtpAssembler) (now : Int) : RtpAssembler :=
  let (dropped, unblocked) := state.dropStale now
  let flushed := (setOrder unblocked).foldl (fun state ssrc => state.flushReady ssrc now) dropped
  { flushed with
    recentlyFlushed := flushed.recentlyFlushed.keepIf fun flushedAt =>
      now - flushedAt ≤ flushedDedupTtlNs }

end RtpAssembler

inductive AssemblerOp where
  | queue (ssrc ts : UInt32) (pkt : GroupPacket) (now : Int)
  | evict (now : Int)
  deriving DecidableEq, Repr

def AssemblerOp.time : AssemblerOp → Int
  | .queue _ _ _ now => now
  | .evict now => now

def RtpAssembler.step (state : RtpAssembler) : AssemblerOp → RtpAssembler
  | .queue ssrc ts pkt now => state.queuePacket ssrc ts pkt now
  | .evict now => state.evictStale now

def RtpAssembler.run (state : RtpAssembler) (ops : List AssemblerOp) : RtpAssembler :=
  ops.foldl RtpAssembler.step state

end Scshr.Media
