import Scshr.Common.Ring
import Scshr.Media.AvcDecoder

/-! The buffers of `VideoDecoder` between its two rings.  `feed_nalu`, the worker and the two
callers of `drain_queue` may overlap in any way; a push or a pop is one step, and the operations
that have a buffer in hand go on in any order. -/
namespace Scshr.Media

open Common SpscRing List

inductive Stage where
  | filled
  | refused
  | decoding
  | draining
  deriving DecidableEq

inductive BufferOutcome where
  | returned (ok : Bool)
  | dropped (free : Nat)
  deriving DecidableEq

structure DecoderBuffers where
  freeRing : SpscRing Nat
  ring : SpscRing Nat
  hands : List (Stage × Nat) := []
  outcomes : List BufferOutcome := []

inductive BufferStep where
  | feed
  | work
  | drain
  | proceed (hand : Nat)

namespace DecoderBuffers

/-- The constructor; a buffer is its place in `nal_pool_`. -/
def new : DecoderBuffers where
  freeRing := (List.range queueCap).foldl (fun ring p => (ring.push p).2)
    (SpscRing.new (queueCap * 2) 0)
  ring := SpscRing.new queueCap 0

/-- The pop of `worker_loop` or `drain_queue`. -/
def takeQueued (st : DecoderBuffers) (stage : Stage) : DecoderBuffers :=
  match st.ring.pop with
  | (none, ring) => { st with ring := ring }
  | (some q, ring) => { st with ring := ring, hands := st.hands ++ [(stage, q)] }

def takeFree (st : DecoderBuffers) : DecoderBuffers :=
  match st.freeRing.pop with
  | (none, ring) => { st with
      freeRing := ring
      outcomes := st.outcomes ++ [.dropped st.freeRing.size] }
  | (some q, ring) => { st with freeRing := ring, hands := st.hands ++ [(.filled, q)] }

def queueFilled (st : DecoderBuffers) (hand q : Nat) : DecoderBuffers :=
  match st.ring.push q with
  | (true, ring) => { st with ring := ring, hands := st.hands.eraseIdx hand }
  | (false, ring) => { st with ring := ring, hands := st.hands.set hand (.refused, q) }

/-- The push that gives a buffer back; `feed_nalu` drops its slice then. -/
def giveBack (st : DecoderBuffers) (hand q : Nat) (stage : Stage) : DecoderBuffers :=
  { st with
    freeRing := (st.freeRing.push q).2
    hands := st.hands.eraseIdx hand
    outcomes := st.outcomes ++ .returned (st.freeRing.push q).1 ::
      if stage = .refused then [.dropped st.freeRing.size] else [] }

def step (st : DecoderBuffers) : BufferStep → DecoderBuffers
  | .feed => st.takeFree
  | .work => st.takeQueued .decoding
  | .drain => st.takeQueued .draining
  | .proceed hand =>
    match st.hands[hand]? with
    | none => st
    | some (.filled, q) => st.queueFilled hand q
    | some (stage, q) => st.giveBack hand q stage

def run (st : DecoderBuffers) (steps : List BufferStep) : DecoderBuffers := steps.foldl step st

/-- Each buffer is in one place; no push has failed, and no slice was dropped while a buffer was
free. -/
structure Conserved (free queue : List Nat) (st : DecoderBuffers) : Prop where
  freeHolds : Holds 7 st.freeRing free
  ringHolds : Holds 6 st.ring queue
  once : (free ++ (queue ++ st.hands.map Prod.snd)).Perm (List.range queueCap)
  accepted : ∀ hand ∈ st.hands, hand.1 ≠ .refused
  outcomes : ∀ outcome ∈ st.outcomes, outcome = .returned true ∨ outcome = .dropped 0

theorem holds_foldl_push {k : Fin 64} {spsc : SpscRing Nat} (items : List Nat)
    (h : Holds k spsc queue) (room : queue.length + items.length ≤ 2 ^ k.val) :
    Holds k (items.foldl (fun ring p => (ring.push p).2) spsc) (queue ++ items) := by
  induction items generalizing spsc queue with
  | nil => rwa [append_nil]
  | cons p items ih =>
    rw [length_cons] at room
    have rest := ih (h.push_room (by omega) p).2
      (by rw [length_append, length_singleton]; omega)
    rwa [append_assoc] at rest

theorem conserved_new : Conserved (List.range queueCap) [] new where
  freeHolds := by
    have capacity : queueCap * 2 = 2 ^ (7 : Fin 64).val := rfl
    have filled := holds_foldl_push (List.range queueCap) (holds_new 7 0)
      (by rw [length_range]; decide)
    rw [nil_append] at filled
    rw [← capacity] at filled
    simp only [new]
    exact filled
  ringHolds := holds_new 6 0
  once := by rw [new, map_nil, append_nil, append_nil]
  accepted _ mem := absurd mem not_mem_nil
  outcomes _ mem := absurd mem not_mem_nil

namespace Conserved

variable {st : DecoderBuffers} {free queue : List Nat} (h : Conserved free queue st)
include h

theorem total : free.length + (queue.length + st.hands.length) = queueCap := by
  have length := h.once.length_eq
  rwa [length_append, length_append, length_map, length_range] at length

theorem accepted_snoc (sound : stage ≠ .refused) (q : Nat) :
    ∀ hand ∈ st.hands ++ [(stage, q)], hand.1 ≠ .refused := by
  intro hand mem
  rcases mem_append.mp mem with old | new
  · exact h.accepted hand old
  · rwa [mem_singleton.mp new]

theorem takeQueued (sound : stage ≠ .refused) :
    ∃ queue, Conserved free queue (st.takeQueued stage) := by
  cases queue with
  | nil =>
    have empty : st.ring.pop = (none, st.ring) := if_pos (h.ringHolds.read_eq_write_iff.mpr rfl)
    rw [DecoderBuffers.takeQueued, empty]
    exact ⟨[], h⟩
  | cons q queue =>
    obtain ⟨found, rest⟩ := h.ringHolds.pop_cons
    have popped : st.ring.pop = (some q, st.ring.pop.2) := Prod.ext found rfl
    have once := h.once
    rw [DecoderBuffers.takeQueued, popped]
    refine ⟨queue, h.freeHolds, rest, ?_, h.accepted_snoc sound q, h.outcomes⟩
    rw [map_append, ← append_assoc queue]
    exact ((perm_append_singleton _ _).append_left free).trans once

theorem takeFree : ∃ free, Conserved free queue st.takeFree := by
  cases free with
  | nil =>
    have empty : st.freeRing.pop = (none, st.freeRing) :=
      if_pos (h.freeHolds.read_eq_write_iff.mpr rfl)
    rw [DecoderBuffers.takeFree, empty]
    refine ⟨[], h.freeHolds, h.ringHolds, h.once, h.accepted, ?_⟩
    intro outcome mem
    rcases mem_append.mp mem with old | new
    · exact h.outcomes outcome old
    · rw [mem_singleton.mp new, h.freeHolds.size_eq]
      exact .inr rfl
  | cons q free =>
    obtain ⟨found, rest⟩ := h.freeHolds.pop_cons
    have popped : st.freeRing.pop = (some q, st.freeRing.pop.2) := Prod.ext found rfl
    rw [DecoderBuffers.takeFree, popped]
    refine ⟨free, rest, h.ringHolds, ?_, h.accepted_snoc (by decide) q, h.outcomes⟩
    rw [map_append, ← append_assoc queue, ← append_assoc free]
    exact (perm_append_singleton _ _).trans h.once

theorem taken (held : st.hands[hand]? = some (stage, q)) :
    (st.hands.map Prod.snd).Perm (q :: (st.hands.eraseIdx hand).map Prod.snd) ∧
      queue.length < 2 ^ (6 : Fin 64).val ∧ free.length < 2 ^ (7 : Fin 64).val := by
  obtain ⟨inside, found⟩ := List.getElem?_eq_some_iff.mp held
  have total := h.total
  have perm := (getElem_cons_eraseIdx_perm inside).symm.map Prod.snd
  rw [map_cons, found] at perm
  change _ ∧ _ < 64 ∧ _ < 128
  rw [queueCap] at total
  exact ⟨perm, by omega, by omega⟩

theorem queueFilled (held : st.hands[hand]? = some (stage, q)) :
    Conserved free (queue ++ [q]) (st.queueFilled hand q) := by
  obtain ⟨perm, room, -⟩ := h.taken held
  obtain ⟨ok, pushed⟩ := h.ringHolds.push_room room q
  have push : st.ring.push q = (true, (st.ring.push q).2) := Prod.ext ok rfl
  rw [DecoderBuffers.queueFilled, push]
  refine ⟨h.freeHolds, pushed, ?_, fun hand mem => h.accepted hand (mem_of_mem_eraseIdx mem),
    h.outcomes⟩
  rw [append_assoc]
  exact ((perm.symm.append_left queue).append_left free).trans h.once

theorem giveBack (held : st.hands[hand]? = some (stage, q)) :
    Conserved (free ++ [q]) queue (st.giveBack hand q stage) := by
  obtain ⟨perm, -, room⟩ := h.taken held
  obtain ⟨ok, pushed⟩ := h.freeHolds.push_room room q
  have accepted : stage ≠ .refused := h.accepted _ (mem_of_getElem? held)
  rw [DecoderBuffers.giveBack, if_neg accepted, ok]
  refine ⟨pushed, h.ringHolds, ?_, fun hand mem => h.accepted hand (mem_of_mem_eraseIdx mem),
    ?_⟩
  · rw [append_assoc, singleton_append]
    refine (List.Perm.append_left free ?_).trans h.once
    exact perm_middle.symm.trans (perm.symm.append_left queue)
  · intro outcome mem
    rcases mem_append.mp mem with old | new
    · exact h.outcomes outcome old
    · exact .inl (mem_singleton.mp new)

theorem step (op : BufferStep) : ∃ free queue, Conserved free queue (st.step op) := by
  cases op with
  | feed => exact h.takeFree.imp fun _ kept => ⟨queue, kept⟩
  | work => exact ⟨free, h.takeQueued (by decide)⟩
  | drain => exact ⟨free, h.takeQueued (by decide)⟩
  | proceed hand =>
    rw [DecoderBuffers.step]
    split
    · exact ⟨free, queue, h⟩
    · rename_i q held
      exact ⟨free, queue ++ [q], h.queueFilled held⟩
    · rename_i stage q _ held
      exact ⟨free ++ [q], queue, h.giveBack held⟩

end Conserved

theorem conserved_run (steps : List BufferStep) (h : Conserved free queue st) :
    ∃ free queue, Conserved free queue (st.run steps) := by
  induction steps generalizing st free queue with
  | nil => exact ⟨free, queue, h⟩
  | cons op steps ih =>
    obtain ⟨_, _, next⟩ := h.step op
    exact ih next

/-- After any steps, each of the 64 buffers is in one place, every push to `free_ring_` has
succeeded, and a slice was dropped only with no buffer free. -/
theorem buffers_conserved (steps : List BufferStep) :
    (∃ free queue, Holds 7 (new.run steps).freeRing free ∧ Holds 6 (new.run steps).ring queue ∧
      (free ++ (queue ++ (new.run steps).hands.map Prod.snd)).Perm (List.range 64)) ∧
    (∀ ok, .returned ok ∈ (new.run steps).outcomes → ok = true) ∧
    ∀ free, .dropped free ∈ (new.run steps).outcomes → free = 0 := by
  obtain ⟨free, queue, h⟩ := conserved_run steps conserved_new
  refine ⟨⟨free, queue, h.freeHolds, h.ringHolds, h.once⟩, ?_, ?_⟩
  · intro ok mem
    rcases h.outcomes _ mem with eq | eq
    · exact BufferOutcome.returned.inj eq
    · cases eq
  · intro free mem
    rcases h.outcomes _ mem with eq | eq
    · cases eq
    · exact BufferOutcome.dropped.inj eq

end DecoderBuffers

end Scshr.Media
