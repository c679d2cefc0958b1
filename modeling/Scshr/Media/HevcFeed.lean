import Scshr.Media.AccessUnit
import Scshr.Media.AssemblerFrame
import Scshr.Media.HevcSlice

/-! From the HEVC assembler to the decoder: `Session::on_flushed_group` feeds
every flushed group of a known tile that is not marked incomplete.  HEVC groups
are flushed as soon as their marker packet is there, and only a gap between two
of the packets marks them, so what is fed is whole exactly when the first packet
of the access unit had arrived by then. -/
namespace Scshr.Media

open Common Lib

structure HevcSession where
  ssrcToTile : AssocMap UInt32 Nat
  ltrEnabled : Bool
  needsParamHarvest : Bool
  harvestVps : Bytes
  harvestSps : Bytes
  harvestPps : AssocMap Int Bytes
  incomplete : Nat
  reconstructed : Nat

structure FedNalu where
  nalu : Bytes
  tile : Nat
  donl : Option Nat
  tLastNs : Int
  deriving DecidableEq, Repr

/-- The decoding order number of one payload; a short payload is passed over. -/
def payloadDonl : Bytes → Option Nat
  | first :: _ :: rest =>
      if hevcNalType first = hevcNalFu then
        match rest with
        | _ :: high :: low :: _ => some (be16 high low)
        | _ => none
      else
        match rest with
        | high :: low :: _ => some (be16 high low)
        | _ => none
  | _ => none

def firstDonl (payloads : List Bytes) : Option Nat := payloads.findSome? payloadDonl

def NalState.nal (state : NalState) (range : NalRange) : Bytes :=
  (state.out.drop range.off).take range.len

namespace HevcSession

def harvestNal (session : HevcSession) (nal : Bytes) : HevcSession :=
  match nal with
  | first :: _ :: rest =>
      if hevcNalType first = hevcNalVps then { session with harvestVps := nal }
      else if hevcNalType first = hevcNalSps then { session with harvestSps := nal }
      else if hevcNalType first = hevcNalPps ∧ rest ≠ [] then
        { session with harvestPps := session.harvestPps.insert (hevcPpsId nal) nal }
      else session
  | _ => session

def harvestParamSets (session : HevcSession) (nals : List Bytes) : HevcSession :=
  let session := nals.foldl harvestNal session
  if session.harvestVps ≠ [] ∧ session.harvestSps ≠ [] ∧ session.harvestPps.keys ≠ [] then
    { session with needsParamHarvest := false }
  else session

/-- New parameter sets are only looked for after a layout change. -/
def harvestIfNeeded (session : HevcSession) (nals : List Bytes) : HevcSession :=
  if session.needsParamHarvest ∧ nals ≠ [] then session.harvestParamSets nals
  else session

/-- `on_flushed_group` for HEVC; the second component is what reaches the
decoder, and nothing when the group is not passed on. -/
def onFlushedGroup (session : HevcSession) (group : FlushedGroup) :
    HevcSession × Option (List FedNalu) :=
  match session.ssrcToTile.lookup group.ssrc with
  | none => (session, none)
  | some tile =>
      let donl := if session.ltrEnabled then firstDonl group.payloads else none
      let au := reassembleHevc group.payloads
      let nals := au.ranges.map au.nal
      let session := session.harvestIfNeeded nals
      if session.needsParamHarvest ∧ nals ≠ [] then (session, none)
      else if group.incomplete then ({ session with incomplete := session.incomplete + 1 }, none)
      else
        ({ session with reconstructed := session.reconstructed + 1 },
          some (nals.map fun nal => ⟨nal, tile, donl, group.tLastNs⟩))

theorem complete_of_fed {session : HevcSession} {group : FlushedGroup}
    (h : (session.onFlushedGroup group).2.isSome) : group.incomplete = false := by
  unfold onFlushedGroup at h
  split at h
  · cases h
  · dsimp only at h
    split at h
    · cases h
    · split at h
      · cases h
      · rename_i hcomplete
        exact Bool.eq_false_iff.mpr hcomplete

end HevcSession

def Sent (ssrc : UInt32) (units : List AccessUnit) : AssemblerOp → Prop
  | .queue source ts pkt _ =>
      source = ssrc → ∃ unit ∈ units, unit.ts = ts ∧ pkt.view ∈ unit.packets
  | .evict _ => True

instance (ssrc : UInt32) (units : List AccessUnit) : DecidablePred (Sent ssrc units)
  | .queue source ts pkt _ => inferInstanceAs
      (Decidable (source = ssrc → ∃ unit ∈ units, unit.ts = ts ∧ pkt.view ∈ unit.packets))
  | .evict _ => .isTrue trivial

/-- The calls deliver packets of the units on `ssrc`, in any order, with any
loss and repetition; other SSRCs and evictions come as they like. -/
def Delivered (ssrc : UInt32) (units : List AccessUnit) (ops : List AssemblerOp) : Prop :=
  ∀ op ∈ ops, Sent ssrc units op

/-- When the call is made, the first packet of the unit is pending, or it is the
packet of the call. -/
def FirstHeld (ssrc : UInt32) (unit : AccessUnit) (state : RtpAssembler) : AssemblerOp → Prop
  | .queue source ts pkt _ =>
      source = ssrc ∧ ts = unit.ts ∧ ∃ first, unit.packets.head? = some first ∧
        (pkt.view = first ∨ ∃ group, state.groups.lookup (key ssrc ts) = some group ∧
          first ∈ group.pkts.map GroupPacket.view)
  | .evict _ => False

namespace RtpAssembler

structure Collecting (ssrc : UInt32) (units : List AccessUnit) (state : RtpAssembler) : Prop where
  keyed : WellKeyed state
  codec : state.codec = .hevc
  unmarked : ∀ k group, state.groups.lookup k = some group →
    group.hasMarker = false ∧ ∀ pkt ∈ group.pkts, pkt.marker = false
  distinct : ∀ k group, state.groups.lookup k = some group →
    (group.pkts.map GroupPacket.seq).Nodup
  sent : ∀ ts group, state.groups.lookup (key ssrc ts) = some group →
    ∀ pkt ∈ group.pkts, ∃ unit ∈ units, unit.ts = ts ∧ pkt.view ∈ unit.packets

variable {ssrc ts : UInt32} {units : List AccessUnit} {state : RtpAssembler} {now : Int}
  {pkt : GroupPacket} {anchor : UInt16} {size : Nat} {packet : UInt16 × Bool}

theorem Collecting.shrink {next : RtpAssembler} (h : Collecting ssrc units state)
    (hkeyed : WellKeyed next)
    (hcodec : next.codec = state.codec)
    (hgroups : ∀ k group, next.groups.lookup k = some group →
      ∃ old deadline, state.groups.lookup k = some old ∧
        group = { old with repairDeadlineNs := deadline }) : Collecting ssrc units next := by
  constructor
  · exact hkeyed
  · exact hcodec.trans h.codec
  · intro k group hfind
    obtain ⟨old, deadline, hold, rfl⟩ := hgroups k group hfind
    exact h.unmarked k old hold
  · intro k group hfind
    obtain ⟨old, deadline, hold, rfl⟩ := hgroups k group hfind
    exact h.distinct k old hold
  · intro ts group hfind
    obtain ⟨old, deadline, hold, rfl⟩ := hgroups _ group hfind
    exact h.sent ts old hold

theorem new_collecting (pool : PacketPool) (ssrc : UInt32) (units : List AccessUnit) :
    Collecting ssrc units (new pool .hevc) := by
  refine ⟨new_wellKeyed pool .hevc, rfl, ?_, ?_, ?_⟩ <;> simp [new]

namespace Collecting

theorem findOrCreate (h : Collecting ssrc units state) (source ts : UInt32) (now : Int) :
    (state.findOrCreate source ts now).hasMarker = false ∧
      (∀ pkt ∈ (state.findOrCreate source ts now).pkts, pkt.marker = false) ∧
      ((state.findOrCreate source ts now).pkts.map GroupPacket.seq).Nodup ∧
      (source = ssrc → ∀ pkt ∈ (state.findOrCreate source ts now).pkts,
        ∃ unit ∈ units, unit.ts = ts ∧ pkt.view ∈ unit.packets) := by
  unfold RtpAssembler.findOrCreate
  cases hfind : state.groups.lookup (key source ts) with
  | none => simp
  | some group =>
    refine ⟨(h.unmarked _ group hfind).1, (h.unmarked _ group hfind).2,
      h.distinct _ group hfind, ?_⟩
    rintro rfl
    exact h.sent ts group hfind

theorem storePacket (h : Collecting ssrc units state)
    (hunmarked : (addPacket (state.findOrCreate source ts now) pkt).hasMarker = false)
    (hsent : source = ssrc → ∃ unit ∈ units, unit.ts = ts ∧ pkt.view ∈ unit.packets) :
    Collecting ssrc units (state.storePacket source ts pkt now) := by
  obtain ⟨hmarker, hmarkers, hdistinct, hall⟩ := h.findOrCreate source ts now
  have hmem : ∀ other ∈ (addPacket (state.findOrCreate source ts now) pkt).pkts,
      other ∈ (state.findOrCreate source ts now).pkts ∨ other = pkt ∧ pkt.marker = false := by
    intro other hother
    unfold addPacket at hother hunmarked
    split at hother
    · exact .inl hother
    · rename_i hnew
      rw [if_neg hnew] at hunmarked
      rcases List.mem_append.mp hother with hold | hlast
      · exact .inl hold
      · exact .inr ⟨List.mem_singleton.mp hlast, (Bool.or_eq_false_iff.mp hunmarked).2⟩
  constructor
  · exact h.keyed.storePacket source ts pkt now
  · exact h.codec
  · intro k group hfind
    rcases lookup_insert_some hfind with heq | hold
    · subst heq
      refine ⟨hunmarked, fun other hother => ?_⟩
      rcases hmem other hother with hold | ⟨rfl, hplain⟩
      · exact hmarkers other hold
      · exact hplain
    · exact h.unmarked k group hold
  · intro k group hfind
    rcases lookup_insert_some hfind with heq | hold
    · subst heq
      exact addPacket_distinct pkt hdistinct
    · exact h.distinct k group hold
  · intro other group hfind
    by_cases heq : key ssrc other = key source ts
    · obtain ⟨rfl, rfl⟩ := Prod.mk.inj heq
      rw [storePacket_lookup] at hfind
      obtain rfl := Option.some_inj.mp hfind
      intro packet hpacket
      rcases hmem packet hpacket with hold | ⟨rfl, -⟩
      · exact hall rfl packet hold
      · exact hsent rfl
    · exact h.sent other group ((AList.lookup_insert_ne heq).symm.trans hfind)

end Collecting

structure Evicting (ssrc : UInt32) (units : List AccessUnit) (start : List Event)
    (state : RtpAssembler) : Prop where
  collecting : Collecting ssrc units state
  drops : ∃ added, state.events = start ++ added ∧
    ∀ event ∈ added, ∃ dropped sorted, event = .drop dropped sorted

namespace Evicting

variable {start : List Event} {next : RtpAssembler}

theorem settle (hsettle : Settle now state next) (h : Evicting ssrc units start state) :
    Evicting ssrc units start next := by
  have hkeyed := hsettle.change.wellKeyed h.collecting.keyed
  have hcodec := hsettle.change.codec
  cases hsettle with
  | arm k group hfind =>
    constructor
    · apply h.collecting.shrink hkeyed hcodec
      intro other found hfound
      unfold armDeadline at hfound
      split at hfound
      · by_cases heq : other = k
        · subst heq
          obtain rfl := Option.some_inj.mp ((AList.lookup_insert _).symm.trans hfound)
          exact ⟨group, _, hfind, rfl⟩
        · exact ⟨found, _, (AList.lookup_insert_ne heq).symm.trans hfound, rfl⟩
      · exact ⟨found, _, hfound, rfl⟩
    · unfold armDeadline setDeadline
      split <;> exact h.drops
  | flush k group hfind hcomplete =>
    -- a pending group has no marker yet, so none is complete
    obtain ⟨-, -, -, -, hmarker, -⟩ := groupComplete_iff.mp hcomplete
    rw [(h.collecting.unmarked k group hfind).1] at hmarker
    cases hmarker

theorem dropGroup (h : Evicting ssrc units start state) (hfind : state.groups.lookup k = some group)
    (reason : String) (now : Int) :
    Evicting ssrc units start (RtpAssembler.dropGroup reason now (state, []) k).1 := by
  have hchange := Change.drop state k group reason now hfind
  have hkeyed := hchange.wellKeyed h.collecting.keyed
  unfold RtpAssembler.dropGroup at hkeyed ⊢
  simp only [hfind] at hkeyed ⊢
  constructor
  · apply h.collecting.shrink hkeyed rfl
    exact fun other found hfound => ⟨found, _, lookup_erase_some hfound, rfl⟩
  · obtain ⟨added, hadded, hdrops⟩ := h.drops
    refine ⟨added ++ [_], by rw [hadded, List.append_assoc], ?_⟩
    intro event hevent
    rcases List.mem_append.mp hevent with hold | hlast
    · exact hdrops event hold
    · exact ⟨_, _, List.mem_singleton.mp hlast⟩

end Evicting

theorem Collecting.evictStale (h : Collecting ssrc units state) (now : Int) :
    Evicting ssrc units state.events (state.evictStale now) := by
  obtain ⟨settled, hsettles, heq⟩ := evictStale_eq state now
  have hstart : Evicting ssrc units state.events (state.dropStale now).1 := by
    have hnone : Evicting ssrc units state.events state :=
      ⟨h, [], (List.append_nil _).symm, by simp⟩
    apply dropStale_invariant _ hnone
    intro state k group reason hfind hstate
    exact hstate.dropGroup hfind reason now
  have hsettled := hsettles.invariant (fun _ _ hsettle => Evicting.settle hsettle) hstart
  rw [heq]
  refine ⟨?_, hsettled.drops⟩
  exact hsettled.collecting.shrink
    ((Change.prune settled now).wellKeyed hsettled.collecting.keyed) rfl
    fun other found hfound => ⟨found, _, hfound, rfl⟩

theorem Collecting.queuePacket (h : Collecting ssrc units state) (source ts : UInt32)
    (pkt : GroupPacket) (now : Int)
    (hsent : source = ssrc → ∃ unit ∈ units, unit.ts = ts ∧ pkt.view ∈ unit.packets) :
    Collecting ssrc units (state.queuePacket source ts pkt now) ∧
      ((state.queuePacket source ts pkt now).events = state.events ∨
        (addPacket (state.findOrCreate source ts now) pkt).hasMarker = true ∧
        ∃ pool, (state.queuePacket source ts pkt now).events = state.events ++
          [.flush (flushedGroup pool (addPacket (state.findOrCreate source ts now) pkt)
            (sortedPackets (addPacket (state.findOrCreate source ts now) pkt).pkts))]) := by
  have hkeyed := (changes_queuePacket state source ts pkt now).wellKeyed h.keyed
  have hcodec := (changes_queuePacket state source ts pkt now).codec
  rcases queuePacket_cases state source ts pkt now with
    ⟨-, heq⟩ | ⟨-, ⟨hunmarked, heq⟩ | ⟨-, hmarker, heq⟩ | ⟨havc, -⟩⟩
  · rw [heq] at hkeyed ⊢
    refine ⟨?_, .inl rfl⟩
    exact h.shrink hkeyed rfl fun other found hfound => ⟨found, _, hfound, rfl⟩
  · rw [heq]
    exact ⟨h.storePacket hunmarked hsent, .inl rfl⟩
  · rw [heq, flushGroup_eq now (storePacket_lookup state source ts pkt now)] at hkeyed ⊢
    refine ⟨?_, .inr ⟨hmarker, _, rfl⟩⟩
    apply h.shrink hkeyed rfl
    intro other found hfound
    have hne : other ≠ key source ts := by
      rintro rfl
      rw [AList.lookup_erase] at hfound
      cases hfound
    refine ⟨found, found.repairDeadlineNs, ?_, rfl⟩
    rw [← AList.lookup_insert_ne hne]
    exact lookup_erase_some hfound
  · rw [h.codec] at havc
    cases havc

theorem Collecting.run (h : Collecting ssrc units state) (hops : Delivered ssrc units ops) :
    Collecting ssrc units (state.run ops) := by
  induction ops generalizing state with
  | nil => exact h
  | cons op rest ih =>
    obtain ⟨hfirst, hrest⟩ := List.forall_mem_cons.mp hops
    change Collecting ssrc units ((state.step op).run rest)
    apply ih _ hrest
    cases op with
    | queue source ts pkt now =>
      exact (h.queuePacket source ts pkt now hfirst).1
    | evict now => exact (h.evictStale now).collecting

theorem offset_lt_of_sent (hsize : size < 0x10000) (h : packet ∈ unitPackets anchor size) :
    (packet.1 - (anchor + 1)).toNat < size := by
  obtain ⟨index, hindex, rfl⟩ := List.mem_map.mp h
  have hlt := List.mem_range.mp hindex
  have hanchor := anchor.toNat_lt
  simp only [UInt16.toNat_sub, UInt16.toNat_add, UInt16.toNat_ofNat', UInt16.toNat_one]
  omega

theorem offset_add_lt (hsize : size < 0x10000)
    (hsent : ∀ index < count, (front + UInt16.ofNat index - base).toNat < size)
    (hindex : index < count) : (front - base).toNat + index < size := by
  induction index with
  | zero => simpa using hsent 0 hindex
  | succ index ih =>
    have hprevious := ih (by omega)
    have hnext := hsent (index + 1) hindex
    rw [offset_add (by omega)] at hnext
    exact hnext

theorem offset_last (hsize : size < 0x10000) (hpos : 0 < size) :
    (anchor + UInt16.ofNat size - (anchor + 1)).toNat = size - 1 := by
  have hanchor := anchor.toNat_lt
  simp only [UInt16.toNat_sub, UInt16.toNat_add, UInt16.toNat_ofNat', UInt16.toNat_one]
  omega

theorem whole_of_ends {sorted : List GroupPacket} (hsize : size < 0x10000)
    (hchain : sorted.IsChain fun left right => right.seq = left.seq + 1)
    (hsent : ∀ pkt ∈ sorted, pkt.view ∈ unitPackets anchor size)
    (hfirst : ∃ pkt ∈ sorted, pkt.seq = anchor + 1)
    (hlast : ∃ pkt ∈ sorted, pkt.seq = anchor + UInt16.ofNat size) :
    ∀ packet ∈ unitPackets anchor size, packet ∈ sorted.map GroupPacket.view := by
  cases sorted with
  | nil => simp at hfirst
  | cons front rest =>
    have hseqs := consecutive_map_seq hchain
    generalize (front :: rest).length = count at hseqs
    have hmem (seq : UInt16) : (∃ pkt ∈ front :: rest, pkt.seq = seq) ↔
        ∃ index < count, front.seq + UInt16.ofNat index = seq := by
      rw [← List.mem_map, hseqs]
      simp
    have hshort : ∀ index < count,
        (front.seq + UInt16.ofNat index - (anchor + 1)).toNat < size := by
      intro index hindex
      obtain ⟨pkt, hpkt, hseq⟩ := (hmem _).mpr ⟨index, hindex, rfl⟩
      rw [← hseq]
      exact offset_lt_of_sent hsize (hsent pkt hpkt)
    obtain ⟨early, hearly, hstart⟩ := (hmem _).mp hfirst
    obtain ⟨late, hlate, hend⟩ := (hmem _).mp hlast
    have hearlyLt := offset_add_lt hsize hshort hearly
    have hlateLt := offset_add_lt hsize hshort hlate
    -- the first number can only be the front, so the last one sits `size - 1` behind it
    have hstartOffset := offset_add (lt_trans hearlyLt hsize)
    rw [hstart, UInt16.sub_self, UInt16.toNat_zero] at hstartOffset
    have hendOffset := offset_add (lt_trans hlateLt hsize)
    rw [hend, offset_last hsize (by omega)] at hendOffset
    have hzero : front.seq = anchor + 1 := by
      rw [← hstart, show early = 0 by omega]
      exact (UInt16.add_zero _).symm
    intro packet hpacket
    obtain ⟨index, hindex, hindexed⟩ := List.mem_map.mp hpacket
    have hlt := List.mem_range.mp hindex
    obtain ⟨pkt, hpkt, hseq⟩ := (hmem (anchor + 1 + UInt16.ofNat index)).mpr
      ⟨index, by omega, by rw [hzero]⟩
    have hsame : pkt.view.1 = packet.1 := by
      rw [← hindexed]
      exact hseq
    refine List.mem_map.mpr ⟨pkt, hpkt, Prod.ext hsame ?_⟩
    rw [marker_unitPackets hsize (hsent pkt hpkt), marker_unitPackets hsize hpacket, hsame]

theorem addPacket_of_marked (hunmarked : group.hasMarker = false)
    (hmarked : (addPacket group pkt).hasMarker = true) :
    (addPacket group pkt).pkts = group.pkts ++ [pkt] ∧ pkt.marker = true := by
  unfold addPacket at *
  split at hmarked
  · rw [hunmarked] at hmarked
    cases hmarked
  · rename_i hnew
    rw [if_neg hnew]
    rw [hunmarked, Bool.false_or] at hmarked
    exact ⟨rfl, hmarked⟩

theorem mem_findOrCreate :
    packet ∈ (state.findOrCreate ssrc ts now).pkts.map GroupPacket.view ↔
      ∃ group, state.groups.lookup (key ssrc ts) = some group ∧
        packet ∈ group.pkts.map GroupPacket.view := by
  unfold findOrCreate
  cases state.groups.lookup (key ssrc ts) <;> simp

theorem Collecting.whole_iff {unit : AccessUnit} (h : Collecting ssrc units state)
    (hdistinct : (units.map AccessUnit.ts).Nodup) (hunit : unit ∈ units) (hts : unit.ts = ts)
    (hpkt : pkt.view ∈ unit.packets)
    (hpackets : unit.packets = unitPackets anchor unit.packets.length)
    (hsize : unit.packets.length < 0x10000)
    (hmarked : (addPacket (state.findOrCreate ssrc ts now) pkt).hasMarker = true)
    (hgap : hasGap (sortedPackets (addPacket (state.findOrCreate ssrc ts now) pkt).pkts) = false) :
    (∀ packet ∈ unit.packets, packet ∈
      (sortedPackets (addPacket (state.findOrCreate ssrc ts now) pkt).pkts).map
        GroupPacket.view) ↔ FirstHeld ssrc unit state (.queue ssrc ts pkt now) := by
  obtain ⟨hunmarked, -, hnodup, hsent⟩ := h.findOrCreate ssrc ts now
  obtain ⟨hadded, hmarker⟩ := addPacket_of_marked hunmarked hmarked
  have hperm := sortedPackets_perm (addPacket (state.findOrCreate ssrc ts now) pkt).pkts
  have hchain := hasGap_consecutive (sortedPackets_distinct (addPacket_distinct pkt hnodup)) hgap
  generalize sortedPackets (addPacket (state.findOrCreate ssrc ts now) pkt).pkts = sorted at *
  rw [hadded] at hperm
  have hall : ∀ other ∈ sorted, other.view ∈ unitPackets anchor unit.packets.length := by
    intro other hother
    rw [← hpackets]
    rcases List.mem_append.mp (hperm.mem_iff.mp hother) with hold | hlast
    · obtain ⟨owner, howner, hsame, hview⟩ := hsent rfl other hold
      rwa [List.inj_on_of_nodup_map hdistinct howner hunit (hsame.trans hts.symm)] at hview
    · rwa [List.mem_singleton.mp hlast]
  have hpos : 0 < unit.packets.length := List.length_pos_of_mem hpkt
  have hhead : unit.packets.head? =
      some (anchor + 1, decide (unit.packets.length = 1)) := by
    rw [hpackets, length_unitPackets]
    obtain ⟨size, hlength⟩ := Nat.exists_eq_add_one_of_ne_zero (Nat.ne_of_gt hpos)
    rw [hlength, unitPackets, List.head?_map, List.head?_range, if_neg (by omega)]
    simp [eq_comm]
  have hheld (packet : UInt16 × Bool) : packet ∈ sorted.map GroupPacket.view ↔
      pkt.view = packet ∨ ∃ group, state.groups.lookup (key ssrc ts) = some group ∧
        packet ∈ group.pkts.map GroupPacket.view := by
    rw [(hperm.map GroupPacket.view).mem_iff, List.map_append, List.mem_append, mem_findOrCreate,
      List.map_singleton, List.mem_singleton, or_comm, eq_comm]
  constructor
  · intro hwhole
    have hfirst := hwhole _ (List.mem_of_head? hhead)
    exact ⟨rfl, hts.symm, _, hhead, (hheld _).mp hfirst⟩
  · rintro ⟨-, -, first, hfirst, hpending⟩
    rw [hpackets]
    apply whole_of_ends hsize hchain hall
    · obtain ⟨other, hother, hview⟩ := List.mem_map.mp ((hheld first).mpr hpending)
      have hsame := Option.some_inj.mp (hfirst.symm.trans hhead)
      exact ⟨other, hother, congrArg Prod.fst (hview.trans hsame)⟩
    · have hmem := (hheld pkt.view).mpr (.inl rfl)
      obtain ⟨other, hother, hview⟩ := List.mem_map.mp hmem
      have hlast : pkt.seq = anchor + UInt16.ofNat unit.packets.length := by
        rw [hpackets] at hpkt
        simpa [GroupPacket.view, hmarker] using marker_unitPackets hsize hpkt
      exact ⟨other, hother, (congrArg Prod.fst hview).trans hlast⟩

/-- Whatever is lost, repeated or reordered: a group of the stream that reaches
the decoder holds all packets of its access unit exactly when the first packet
of the unit had arrived by the call that flushed the group. -/
theorem fed_group_whole_iff (session : HevcSession) (pool : PacketPool)
    (ssrc : UInt32) (anchor : UInt16) (units : List AccessUnit) (hnumbered : Numbered anchor units)
    (hdistinct : (units.map AccessUnit.ts).Nodup) (before : List AssemblerOp) (op : AssemblerOp)
    (hdelivered : Delivered ssrc units (before ++ [op])) (group : FlushedGroup)
    (hflush : .flush group ∈ (((new pool .hevc).run before).step op).events.drop
      ((new pool .hevc).run before).events.length)
    (hssrc : group.ssrc = ssrc) (hfed : (session.onFlushedGroup group).2.isSome) :
    ∃ unit ∈ units, unit.ts = group.ts ∧ (unit.packets.length < 0x10000 →
      ((∀ packet ∈ unit.packets, packet ∈ group.packets.map GroupPacket.view) ↔
        FirstHeld ssrc unit ((new pool .hevc).run before) op)) := by
  have hbefore : Delivered ssrc units before :=
    fun op hmem => hdelivered op (List.mem_append_left _ hmem)
  have hop := hdelivered op (List.mem_append_right _ List.mem_cons_self)
  have hstate := (new_collecting pool ssrc units).run hbefore
  generalize (new pool .hevc).run before = state at *
  have hincomplete := HevcSession.complete_of_fed hfed
  cases op with
  | evict now =>
    obtain ⟨added, hadded, hdrops⟩ := (hstate.evictStale now).drops
    change .flush group ∈ (state.evictStale now).events.drop state.events.length at hflush
    rw [hadded, List.drop_left] at hflush
    obtain ⟨dropped, sorted, hevent⟩ := hdrops _ hflush
    cases hevent
  | queue source ts pkt now =>
    change .flush group ∈ (state.queuePacket source ts pkt now).events.drop
      state.events.length at hflush
    rcases (hstate.queuePacket source ts pkt now hop).2 with heq | ⟨hmarked, slots, hevents⟩
    · rw [heq, List.drop_length] at hflush
      cases hflush
    · rw [hevents, List.drop_left, List.mem_singleton, Event.flush.injEq] at hflush
      have hkey := hstate.keyed.findOrCreate source ts now
      have hsource : group.ssrc = source := by
        rw [hflush]
        exact (addPacket_ssrc _ _).trans (congrArg Prod.fst hkey)
      have hgroupTs : group.ts = ts := by
        rw [hflush]
        exact (addPacket_ts _ _).trans (congrArg Prod.snd hkey)
      obtain rfl : source = ssrc := hsource.symm.trans hssrc
      obtain ⟨unit, hunit, hts, hpkt⟩ := hop rfl
      refine ⟨unit, hunit, hts.trans hgroupTs.symm, fun hsize => ?_⟩
      obtain ⟨left, right, hsplit⟩ := List.append_of_mem hunit
      rw [hsplit] at hnumbered
      rw [hflush] at hincomplete ⊢
      exact hstate.whole_iff hdistinct hunit hts hpkt hnumbered.unit.2 hsize hmarked hincomplete

def threePackets : List AccessUnit := [⟨100, [(10, false), (11, false), (12, true)]⟩]

def oneTile : HevcSession :=
  ⟨AList.insert 1 0 ∅, false, false, [], [], ∅, 0, 0⟩

def shuffled : List AssemblerOp :=
  [.queue 1 100 ⟨10, false, 0⟩ 0, .queue 1 100 ⟨11, false, 1⟩ 5, .queue 1 100 ⟨11, false, 2⟩ 6]

theorem fed_group_whole_shuffled :
    ∃ group, .flush group ∈ (((new blankPool .hevc).run shuffled).step
        (.queue 1 100 ⟨12, true, 3⟩ 7)).events ∧
      (oneTile.onFlushedGroup group).2.isSome ∧
      ∃ unit ∈ threePackets, unit.ts = group.ts ∧
        ∀ packet ∈ unit.packets, packet ∈ group.packets.map GroupPacket.view := by
  let group : FlushedGroup :=
    flushedGroup blankPool ⟨1, 100, [⟨10, false, 0⟩, ⟨11, false, 1⟩, ⟨12, true, 3⟩], 0, 0, true⟩
      [⟨10, false, 0⟩, ⟨11, false, 1⟩, ⟨12, true, 3⟩]
  have hfed : (oneTile.onFlushedGroup group).2.isSome := by decide +kernel
  obtain ⟨unit, hunit, hts, hiff⟩ := fed_group_whole_iff oneTile blankPool 1 9
    threePackets ⟨by decide, by decide, trivial⟩ (by decide) shuffled (.queue 1 100 ⟨12, true, 3⟩ 7)
    (by unfold Delivered; decide) group (by decide +kernel) rfl hfed
  refine ⟨group, by decide +kernel, hfed, unit, hunit, hts, ?_⟩
  obtain rfl := List.mem_singleton.mp hunit
  refine (hiff (by decide)).mpr ⟨rfl, rfl, (10, false), rfl, .inr ?_⟩
  exact ⟨⟨1, 100, [⟨10, false, 0⟩, ⟨11, false, 1⟩], 0, 0, false⟩, by decide +kernel, by decide⟩

def lostFirst : List AssemblerOp :=
  [.queue 1 100 ⟨11, false, 1⟩ 0, .queue 1 100 ⟨12, true, 2⟩ 1]

def slicePool : PacketPool := ⟨fun _ => ⟨[2, 1, 0, 0, 7], 0, 0, 5⟩, []⟩

/-- With packet 10 lost, the pair `{11, 12}` is fed as a complete access unit. -/
theorem lostFirst_fed_partial :
    Numbered 9 threePackets ∧ Delivered 1 threePackets lostFirst ∧
    ∃ group, ((new slicePool .hevc).run lostFirst).events = [.flush group] ∧
      group.packets.map GroupPacket.view = [(11, false), (12, true)] ∧
      (oneTile.onFlushedGroup group).2 =
        some [⟨[2, 1, 7], 0, none, 0⟩, ⟨[2, 1, 7], 0, none, 0⟩] := by
  refine ⟨⟨by decide, by decide, trivial⟩, by unfold Delivered; decide, ?_⟩
  let group : FlushedGroup :=
    flushedGroup slicePool ⟨1, 100, [⟨11, false, 1⟩, ⟨12, true, 2⟩], 0, 0, true⟩
      [⟨11, false, 1⟩, ⟨12, true, 2⟩]
  exact ⟨group, by decide +kernel, by decide, by decide +kernel⟩

end RtpAssembler

end Scshr.Media
