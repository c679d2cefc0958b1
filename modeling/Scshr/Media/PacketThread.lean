import Scshr.Crypto.Srtp
import Scshr.Media.SlotOwnership

/-! The packet thread (`session.cpp`) with its overlapped receiver (`net/udp.cpp`)
as a machine over single steps: what the system decides (which receive completes
and how, whether a post is accepted, the clock) is in the action. -/
namespace Scshr.Media

open Common Lib Crypto List

def noSlot : UInt32 := 0xFFFFFFFF

def packetSlotBytes : Nat := 2048

namespace PacketPool

def new (count : UInt32) : PacketPool where
  slots _ := ⟨[], 0, 0, 0⟩
  free := (range count.toNat).map UInt32.ofNat

def acquire (pool : PacketPool) : UInt32 × PacketPool :=
  match pool.free with
  | [] => (noSlot, pool)
  | slot :: rest => (slot, { pool with free := rest })

def write (pool : PacketPool) (slot : UInt32) (content : PacketSlot) : PacketPool :=
  { pool with slots := fun index => if index = slot then content else pool.slots index }

end PacketPool

/-- The receive operations, each with the slot it owns, and those to be posted again. -/
structure IocpReceiver where
  ops : List UInt32
  unposted : List Nat
  poolExhausted : Nat
  recvErrors : Nat
  datagrams : Nat
  bytes : Nat

namespace IocpReceiver

/-- Hand the receive to the system; a refused one is retried later and keeps its slot. -/
def submit (rx : IocpReceiver) (op : Nat) (accepted : Bool) : IocpReceiver :=
  if accepted then rx
  else { rx with recvErrors := rx.recvErrors + 1, unposted := rx.unposted ++ [op] }

def post (rx : IocpReceiver) (pool : PacketPool) (op : Nat) (accepted : Bool) :
    IocpReceiver × PacketPool :=
  match rx.ops[op]? with
  | none => (rx, pool)
  | some slot =>
      if slot = noSlot then
        let acquired := pool.acquire
        if acquired.1 = noSlot then
          ({ rx with
              poolExhausted := rx.poolExhausted + 1
              unposted := rx.unposted ++ [op] }, acquired.2)
        else (submit { rx with ops := rx.ops.set op acquired.1 } op accepted, acquired.2)
      else (rx.submit op accepted, pool)

end IocpReceiver

/-- Where the thread is: opening the receiver, at the top of its loop, in `wait`
behind its first lines, or in the loop over the batch. -/
inductive Phase where
  | opening (left : Nat)
  | idle
  | waiting (retry : List Nat)
  | handling (now : Int)
  deriving DecidableEq, Repr

structure PacketThread where
  assembler : RtpAssembler
  rx : IocpReceiver
  dec : SrtpDecryptor
  batch : List UInt32
  phase : Phase
  lastEvict : Int
  rxPktsVideo : Nat
  rxBytesVideo : Nat
  srtpAuthFail : Nat

inductive Completion where
  | failed
  | received (datagram : Bytes)
  deriving DecidableEq, Repr

inductive Action where
  | openOp (accepted : Bool)
  | wait
  | repost (accepted : Bool)
  | complete (op : Nat) (result : Completion) (time : Int) (accepted : Bool)
  | drained (now : Int)
  | handle (dropped : Bool)
  | finish
  | reset
  deriving DecidableEq, Repr

structure BurstPacket where
  ssrc : UInt32
  ts : UInt32
  seq : UInt16
  marker : Bool
  payload : Bytes
  tNs : Int

def seedBurst : RtpAssembler → List (BurstPacket × Int) → RtpAssembler
  | assembler, [] => assembler
  | assembler, (pkt, now) :: rest =>
      let acquired := assembler.pool.acquire
      if acquired.1 = noSlot then { assembler with pool := acquired.2 }
      else
        let data := pkt.payload.take packetSlotBytes
        let pool := acquired.2.write acquired.1 ⟨data, pkt.tNs, 0, data.length⟩
        seedBurst
          (RtpAssembler.queuePacket { assembler with pool := pool } pkt.ssrc pkt.ts
            ⟨pkt.seq, pkt.marker, acquired.1⟩ now) rest

namespace PacketThread

def evictIntervalNs : Int := 20000000

def start (count : UInt32) (codec : VideoCodec) (pending : List (BurstPacket × Int))
    (dec : SrtpDecryptor) (depth : Nat) (now : Int) : PacketThread where
  assembler := seedBurst (RtpAssembler.new (PacketPool.new count) codec) pending
  rx := ⟨[], [], 0, 0, 0, 0⟩
  dec := dec
  batch := []
  phase := .opening depth
  lastEvict := now
  rxPktsVideo := 0
  rxBytesVideo := 0
  srtpAuthFail := 0

def setPool (thread : PacketThread) (pool : PacketPool) : PacketThread :=
  { thread with assembler := { thread.assembler with pool := pool } }

def post (thread : PacketThread) (op : Nat) (accepted : Bool) : PacketThread :=
  let posted := thread.rx.post thread.assembler.pool op accepted
  { thread.setPool posted.2 with rx := posted.1 }

def takeCompletion (thread : PacketThread) (op : Nat) (result : Completion) (time : Int) :
    PacketThread :=
  match result, thread.rx.ops.getD op noSlot with
  | .failed, _ => { thread with rx := { thread.rx with recvErrors := thread.rx.recvErrors + 1 } }
  | .received datagram, slot =>
      if datagram.length > 0 ∧ slot ≠ noSlot then
        { thread.setPool (thread.assembler.pool.write slot ⟨datagram, time, 0, 0⟩) with
          batch := thread.batch ++ [slot]
          rx :=
            { thread.rx with
              ops := thread.rx.ops.set op noSlot
              datagrams := thread.rx.datagrams + 1
              bytes := thread.rx.bytes + datagram.length } }
      else thread

def release (thread : PacketThread) (slot : UInt32) : PacketThread :=
  thread.setPool (thread.assembler.pool.release slot)

def handlePacket (crypto : SrtpCrypto) (thread : PacketThread) (slot : UInt32) (dropped : Bool) :
    PacketThread :=
  let content := thread.assembler.pool.slots slot
  let thread :=
    { thread with
      rxPktsVideo := thread.rxPktsVideo + 1
      rxBytesVideo := thread.rxBytesVideo + content.data.length }
  if dropped then thread.release slot
  else
    let decrypted := thread.dec.decrypt crypto content.data
    match decrypted.1 with
    | none =>
        { thread.release slot with
          dec := decrypted.2
          srtpAuthFail := thread.srtpAuthFail + 1 }
    | some (header, plain) =>
        let pool := thread.assembler.pool.write slot
          ⟨plain, content.tRecvNs, header.headerLen, header.payloadLen⟩
        { thread with
          dec := decrypted.2
          assembler := RtpAssembler.queuePacket { thread.assembler with pool := pool }
            header.ssrc header.timestamp ⟨header.seq, header.marker, slot⟩ content.tRecvNs }

def evictIfDue (thread : PacketThread) (now : Int) : PacketThread :=
  if now - thread.lastEvict ≥ evictIntervalNs then
    { thread with lastEvict := now, assembler := thread.assembler.evictStale now }
  else thread

/-- The first lines of `wait`: the batch is cleared, the operations to retry are taken over. -/
def beginWait (thread : PacketThread) : PacketThread :=
  { thread with
    batch := []
    rx := { thread.rx with unposted := [] }
    phase := .waiting thread.rx.unposted }

/-- One step of the thread; an action that does not fit its phase is none. -/
def step (crypto : SrtpCrypto) (thread : PacketThread) (action : Action) : Option PacketThread :=
  match action, thread.phase with
  | .openOp accepted, .opening (left + 1) =>
      let opened :=
        { thread with
          rx := { thread.rx with ops := thread.rx.ops ++ [noSlot] }
          phase := .opening left }
      some (opened.post thread.rx.ops.length accepted)
  | .wait, .opening 0 | .wait, .idle => some thread.beginWait
  | .repost accepted, .waiting (op :: retry) =>
      some ({ thread with phase := .waiting retry }.post op accepted)
  | .complete op result time accepted, .waiting [] =>
      if op < thread.rx.ops.length then
        some ((thread.takeCompletion op result time).post op accepted)
      else none
  | .drained now, .waiting [] => some { thread with phase := .handling now }
  | .handle dropped, .handling _ =>
      match thread.batch with
      | [] => none
      | slot :: rest => some ({ thread with batch := rest }.handlePacket crypto slot dropped)
  | .finish, .handling now =>
      match thread.batch with
      | [] => some ({ thread with phase := .idle }.evictIfDue now)
      | _ :: _ => none
  | .reset, _ => some { thread with assembler := thread.assembler.reset }
  | _, _ => none

def run (crypto : SrtpCrypto) (thread : PacketThread) (actions : List Action) :
    Option PacketThread :=
  actions.foldlM (step crypto) thread

/-! ## Where the slots are -/

def opSlot (slot : UInt32) : Multiset UInt32 := if slot = noSlot then 0 else {slot}

def opSlots (ops : List UInt32) : Multiset UInt32 := (ops.map opSlot).sum

def places (thread : PacketThread) : Multiset UInt32 :=
  (thread.assembler.pool.free : Multiset UInt32) + opSlots thread.rx.ops +
    (thread.batch : Multiset UInt32) + thread.assembler.held

variable {thread next : PacketThread} {op : Nat} {slot count : UInt32} {pool : PacketPool}
  {crypto : SrtpCrypto}

theorem places_eq_owned (thread : PacketThread) :
    thread.places =
      thread.assembler.owned + opSlots thread.rx.ops + (thread.batch : Multiset UInt32) := by
  unfold places RtpAssembler.owned
  abel

theorem opSlots_set (slot : UInt32) (hop : ops[op]? = some old) :
    opSlot old + opSlots (ops.set op slot) = opSlot slot + opSlots ops := by
  induction ops generalizing op with
  | nil => simp at hop
  | cons first rest ih =>
    cases op with
    | zero =>
      have hold : first = old := by simpa using hop
      simp only [set_cons_zero, opSlots, map_cons, sum_cons, hold]
      abel
    | succ op =>
      have hrest := @ih op (by simpa using hop)
      simp only [set_cons_succ, opSlots, map_cons, sum_cons] at hrest ⊢
      rw [← add_assoc, add_comm (opSlot old), add_assoc, hrest]
      abel

theorem opSlot_noSlot : opSlot noSlot = 0 := rfl

theorem opSlot_of_ne (h : slot ≠ noSlot) : opSlot slot = {slot} := if_neg h

theorem acquire_cases (hfree : ∀ slot ∈ pool.free, slot ≠ noSlot) :
    pool.acquire = (noSlot, pool) ∨
      pool.acquire.1 ≠ noSlot ∧
        {pool.acquire.1} + (pool.acquire.2.free : Multiset UInt32) = pool.free := by
  unfold PacketPool.acquire
  cases hlist : pool.free with
  | nil => exact Or.inl rfl
  | cons slot rest =>
    right
    exact ⟨hfree slot (by rw [hlist]; exact mem_cons_self), rfl⟩

@[simp] theorem ops_submit (rx : IocpReceiver) (op : Nat) (accepted : Bool) :
    (rx.submit op accepted).ops = rx.ops := by
  unfold IocpReceiver.submit
  split <;> rfl

theorem post_conserves (rx : IocpReceiver) (op : Nat) (accepted : Bool)
    (hfree : ∀ slot ∈ pool.free, slot ≠ noSlot) :
    ((rx.post pool op accepted).2.free : Multiset UInt32) +
        opSlots (rx.post pool op accepted).1.ops = pool.free + opSlots rx.ops := by
  unfold IocpReceiver.post
  cases hop : rx.ops[op]? with
  | none => rfl
  | some slot =>
    dsimp only
    by_cases hslot : slot = noSlot
    · rw [if_pos hslot]
      rcases acquire_cases hfree with hempty | ⟨hne, hmoved⟩
      · rw [hempty, if_pos rfl]
      · have hset := opSlots_set pool.acquire.1 hop
        rw [hslot, opSlot_noSlot, zero_add, opSlot_of_ne hne] at hset
        rw [if_neg hne, ops_submit, hset, ← hmoved]
        abel
    · rw [if_neg hslot, ops_submit]

theorem mem_new_free : slot ∈ (PacketPool.new count).free ↔ slot < count := by
  rw [UInt32.lt_iff_toNat_lt]
  constructor
  · intro hmem
    simp only [PacketPool.new, mem_map, mem_range] at hmem
    obtain ⟨index, hindex, rfl⟩ := hmem
    rw [UInt32.toNat_ofNat', Nat.mod_eq_of_lt (hindex.trans count.toNat_lt)]
    exact hindex
  · intro hlt
    exact mem_map.mpr ⟨slot.toNat, mem_range.mpr hlt, UInt32.ofNat_toNat⟩

theorem nodup_new_free (count : UInt32) : (PacketPool.new count).free.Nodup := by
  apply List.Nodup.map_on _ nodup_range
  intro left hleft right hright heq
  have hbound := count.toNat_lt
  have htoNat := congrArg UInt32.toNat heq
  simp only [mem_range] at hleft hright
  simp only [UInt32.toNat_ofNat'] at htoNat
  omega

theorem ne_noSlot_of_lt (h : slot < count) : slot ≠ noSlot := by
  intro hslot
  have hbound := count.toNat_lt
  rw [hslot, UInt32.lt_iff_toNat_lt] at h
  have hmax : noSlot.toNat = 2 ^ 32 - 1 := rfl
  omega

theorem ne_noSlot_of_le (hle : slots ≤ ((PacketPool.new count).free : Multiset UInt32)) :
    ∀ slot ∈ slots, slot ≠ noSlot := by
  intro slot hslot
  exact ne_noSlot_of_lt (mem_new_free.mp (Multiset.mem_of_le hle hslot))

theorem free_le_owned (assembler : RtpAssembler) :
    (assembler.pool.free : Multiset UInt32) ≤ assembler.owned :=
  Multiset.le_add_right _ _

theorem owned_seedBurst (assembler : RtpAssembler) (pending : List (BurstPacket × Int))
    (howned : assembler.owned = ((PacketPool.new count).free : Multiset UInt32)) :
    (seedBurst assembler pending).owned = ((PacketPool.new count).free : Multiset UInt32) := by
  induction pending generalizing assembler with
  | nil => exact howned
  | cons entry rest ih =>
    have hfree := ne_noSlot_of_le (howned ▸ free_le_owned assembler)
    unfold seedBurst
    rcases acquire_cases hfree with hempty | ⟨hne, hmoved⟩
    · simp only [hempty, if_true]
      exact howned
    · simp only [if_neg hne]
      apply ih
      rw [RtpAssembler.owned_queuePacket, ← howned]
      unfold RtpAssembler.owned
      rw [← hmoved, ← add_assoc]
      rfl

/-! ## Every step moves slots, none makes or loses one -/

theorem places_post (op : Nat) (accepted : Bool)
    (hfree : ∀ slot ∈ thread.assembler.pool.free, slot ≠ noSlot) :
    (thread.post op accepted).places = thread.places := by
  have hpost := post_conserves thread.rx op accepted hfree
  unfold places post setPool
  dsimp only
  rw [hpost]
  rfl

theorem places_takeCompletion (thread : PacketThread) (result : Completion) (time : Int)
    (hop : op < thread.rx.ops.length) :
    (thread.takeCompletion op result time).places = thread.places := by
  unfold takeCompletion
  cases result with
  | failed => rfl
  | received datagram =>
    dsimp only
    split
    · case isTrue htaken =>
      have hold : thread.rx.ops[op]? = some (thread.rx.ops.getD op noSlot) := by
        simp [getD_eq_getElem?_getD, hop]
      have hset := opSlots_set noSlot hold
      rw [opSlot_of_ne htaken.2, opSlot_noSlot, zero_add] at hset
      unfold places
      dsimp only [setPool, PacketPool.write]
      rw [← hset, ← Multiset.coe_add, Multiset.coe_singleton]
      unfold RtpAssembler.held
      abel
    · rfl

theorem phase_takeCompletion (thread : PacketThread) (op : Nat) (result : Completion)
    (time : Int) : (thread.takeCompletion op result time).phase = thread.phase := by
  unfold takeCompletion
  cases result with
  | failed => rfl
  | received datagram =>
    dsimp only
    split <;> rfl

theorem places_release (thread : PacketThread) (slot : UInt32) :
    (thread.release slot).places = {slot} + thread.places := by
  unfold places release setPool RtpAssembler.held
  dsimp only
  rw [RtpAssembler.free_release]
  abel

theorem places_handlePacket (crypto : SrtpCrypto) (thread : PacketThread) (slot : UInt32)
    (dropped : Bool) :
    (thread.handlePacket crypto slot dropped).places = {slot} + thread.places := by
  unfold handlePacket
  dsimp only
  split
  · exact places_release _ slot
  · split
    · exact places_release _ slot
    · rw [places_eq_owned, places_eq_owned]
      dsimp only
      rw [RtpAssembler.owned_queuePacket, add_assoc, add_assoc, add_assoc]
      rfl

theorem phase_handlePacket (crypto : SrtpCrypto) (thread : PacketThread) (slot : UInt32)
    (dropped : Bool) : (thread.handlePacket crypto slot dropped).phase = thread.phase := by
  unfold handlePacket
  dsimp only
  split
  · rfl
  · split <;> rfl

theorem places_evictIfDue (thread : PacketThread) (now : Int) :
    (thread.evictIfDue now).places = thread.places := by
  unfold evictIfDue
  split
  · rw [places_eq_owned, places_eq_owned]
    dsimp only
    rw [RtpAssembler.owned_evictStale]
  · rfl

theorem batch_evictIfDue (thread : PacketThread) (now : Int) :
    (thread.evictIfDue now).batch = thread.batch := by
  unfold evictIfDue
  split <;> rfl

theorem places_reset (thread : PacketThread) :
    { thread with assembler := thread.assembler.reset }.places = thread.places := by
  rw [places_eq_owned, places_eq_owned]
  dsimp only
  rw [RtpAssembler.owned_reset]

def Phase.AtTop : Phase → Prop
  | .opening _ | .idle => True
  | .waiting _ | .handling _ => False

/-- What the whole run keeps: every slot of the pool in one place, and no batch
left over at the top of the loop. -/
structure Conserved (count : UInt32) (thread : PacketThread) : Prop where
  places_eq : thread.places = ((PacketPool.new count).free : Multiset UInt32)
  batch_nil : Phase.AtTop thread.phase → thread.batch = []

theorem free_ne_noSlot (hplaces : thread.places = ((PacketPool.new count).free : Multiset UInt32)) :
    ∀ slot ∈ thread.assembler.pool.free, slot ≠ noSlot := by
  have hle : (thread.assembler.pool.free : Multiset UInt32) ≤ thread.places := by
    unfold places
    rw [add_assoc, add_assoc]
    exact Multiset.le_add_right _ _
  exact ne_noSlot_of_le (hplaces ▸ hle)

theorem conserved_start (count : UInt32) (codec : VideoCodec) (pending : List (BurstPacket × Int))
    (dec : SrtpDecryptor) (depth : Nat) (now : Int) :
    Conserved count (start count codec pending dec depth now) := by
  constructor
  · have hnew : (RtpAssembler.new (PacketPool.new count) codec).owned =
        ((PacketPool.new count).free : Multiset UInt32) := by
      simp [RtpAssembler.owned, RtpAssembler.held, RtpAssembler.new, AssocMap.total_empty]
    have hseed := owned_seedBurst _ pending hnew
    rw [places_eq_owned]
    simpa [start, opSlots] using hseed
  · intro _
    rfl

theorem conserved_post (op : Nat) (accepted : Bool) (h : Conserved count thread) :
    Conserved count (thread.post op accepted) :=
  ⟨(places_post op accepted (free_ne_noSlot h.places_eq)).trans h.places_eq, h.batch_nil⟩

theorem conserved_beginWait (h : Conserved count thread) (htop : Phase.AtTop thread.phase) :
    Conserved count thread.beginWait := by
  constructor
  · rw [← h.places_eq]
    simp [places, beginWait, h.batch_nil htop]
  · exact False.elim

theorem conserved_step (h : Conserved count thread)
    (hstep : step crypto thread action = some next) : Conserved count next := by
  unfold step at hstep
  split at hstep
  · case h_1 accepted left hphase =>
    cases hstep
    apply conserved_post
    constructor
    · rw [← h.places_eq]
      simp [places, opSlots, opSlot_noSlot]
    · intro _
      exact h.batch_nil (by rw [hphase]; trivial)
  · case h_2 hphase =>
    cases hstep
    exact conserved_beginWait h (by rw [hphase]; trivial)
  · case h_3 hphase =>
    cases hstep
    exact conserved_beginWait h (by rw [hphase]; trivial)
  · case h_4 accepted op retry hphase =>
    cases hstep
    apply conserved_post
    exact ⟨h.places_eq, False.elim⟩
  · case h_5 op result time accepted hphase =>
    split at hstep
    · case isTrue hop =>
      cases hstep
      apply conserved_post
      constructor
      · rw [places_takeCompletion thread result time hop, h.places_eq]
      · rw [phase_takeCompletion, hphase]
        exact False.elim
    · case isFalse => cases hstep
  · case h_6 now hphase =>
    cases hstep
    exact ⟨h.places_eq, False.elim⟩
  · case h_7 dropped now hphase =>
    split at hstep
    · cases hstep
    · case h_2 slot rest hbatch =>
      cases hstep
      constructor
      · rw [places_handlePacket, ← h.places_eq]
        simp only [places, hbatch, ← Multiset.cons_coe, ← Multiset.singleton_add]
        abel
      · rw [phase_handlePacket]
        dsimp only
        rw [hphase]
        exact False.elim
  · case h_8 now hphase =>
    split at hstep
    · case h_1 hbatch =>
      cases hstep
      constructor
      · rw [places_evictIfDue, ← h.places_eq]
        rfl
      · intro _
        rw [batch_evictIfDue]
        exact hbatch
    · cases hstep
  · case h_9 =>
    cases hstep
    exact ⟨(places_reset thread).trans h.places_eq, h.batch_nil⟩
  · cases hstep

theorem conserved_run (h : Conserved count thread) (hrun : run crypto thread actions = some last) :
    Conserved count last := by
  induction actions generalizing thread with
  | nil =>
    cases hrun
    exact h
  | cons action rest ih =>
    simp only [run, foldlM_cons, Option.bind_eq_bind, Option.bind_eq_some_iff] at hrun
    obtain ⟨next, hstep, hrest⟩ := hrun
    exact ih (conserved_step h hstep) hrest

/-- In every state of every run each slot of the pool is in exactly one place, and
nothing else is in any. -/
theorem every_slot_in_one_place (crypto : SrtpCrypto) (count : UInt32) (codec : VideoCodec)
    (pending : List (BurstPacket × Int)) (dec : SrtpDecryptor) (depth : Nat) (now : Int)
    (actions : List Action) (thread : PacketThread)
    (hrun : run crypto (start count codec pending dec depth now) actions = some thread)
    (slot : UInt32) :
    ((thread.assembler.pool.free : Multiset UInt32).count slot +
        (opSlots thread.rx.ops).count slot + (thread.batch : Multiset UInt32).count slot +
        thread.assembler.held.count slot) = if slot < count then 1 else 0 := by
  have hplaces := (conserved_run (conserved_start count codec pending dec depth now) hrun).places_eq
  have hcount := congrArg (Multiset.count slot) hplaces
  simp only [places, Multiset.count_add] at hcount
  rw [hcount, Multiset.coe_count]
  split
  · case isTrue hlt =>
    exact count_eq_one_of_mem (nodup_new_free count) (mem_new_free.mpr hlt)
  · case isFalse hge =>
    exact count_eq_zero_of_not_mem fun hmem => hge (mem_new_free.mp hmem)

def zeroTagCrypto : SrtpCrypto where
  ecb _ block := block
  ctr _ _ _ := 0
  hmacSha1 _ _ := Vector.replicate 20 0

def unmarkedDatagram : Bytes :=
  [0x80, 0x60, 0, 1, 0, 0, 0, 1, 0, 0, 0, 7] ++ replicate 10 0

def mixedActions : List Action :=
  [.openOp true, .openOp false, .wait, .repost true,
    .complete 0 (.received unmarkedDatagram) 5 true, .complete 1 .failed 5 true,
    .complete 1 (.received [0x80]) 5 true, .drained 6, .handle false, .handle false, .finish,
    .wait, .repost true, .complete 0 (.received unmarkedDatagram) 8 true, .drained 9,
    .handle false, .finish]

theorem every_slot_in_one_place_mixedActions :
    ∃ thread, run zeroTagCrypto
        (start 3 .avc [] (SrtpDecryptor.new zeroTagCrypto [] []) 2 0) mixedActions = some thread ∧
      (thread.assembler.pool.free : Multiset UInt32).count 0 +
        (opSlots thread.rx.ops).count 0 + (thread.batch : Multiset UInt32).count 0 +
        thread.assembler.held.count 0 = 1 :=
  ⟨_, rfl, every_slot_in_one_place zeroTagCrypto 3 .avc []
    (SrtpDecryptor.new zeroTagCrypto [] []) 2 0 mixedActions _ rfl 0⟩

end PacketThread

end Scshr.Media
