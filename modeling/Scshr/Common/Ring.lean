import Mathlib.Data.Nat.ModEq

/-! The ring between two threads (`common/ring.h`): a queue of bounded length, also when its
64-bit indices have wrapped around. -/
namespace Scshr.Common

open List

structure SpscRing (α : Type) where
  buf : List α
  mask : UInt64
  write : UInt64
  read : UInt64

inductive RingOp (α : Type) where
  | push (v : α)
  | pop
  | size

inductive RingAnswer (α : Type) where
  | pushed (ok : Bool)
  | popped (v : Option α)
  | counted (n : Nat)
  deriving DecidableEq

def answers {σ ι ο : Type} (step : σ → ι → ο × σ) : σ → List ι → List ο
  | _, [] => []
  | state, op :: ops => (step state op).1 :: answers step (step state op).2 ops

def fifoStep {α : Type} (capacity : Nat) (queue : List α) : RingOp α → RingAnswer α × List α
  | .push v => if queue.length = capacity then (.pushed false, queue)
    else (.pushed true, queue ++ [v])
  | .pop => (.popped queue.head?, queue.tail)
  | .size => (.counted queue.length, queue)

namespace SpscRing

variable {α : Type}

def new (capacityPow2 : Nat) (blank : α) : SpscRing α where
  buf := List.replicate capacityPow2 blank
  mask := UInt64.ofNat capacityPow2 - 1
  write := 0
  read := 0

def push (ring : SpscRing α) (v : α) : Bool × SpscRing α :=
  if ring.buf.length ≤ (ring.write - ring.read).toNat then (false, ring)
  else (true, { ring with
    buf := ring.buf.set (ring.write &&& ring.mask).toNat v
    write := ring.write + 1 })

def pop (ring : SpscRing α) : Option α × SpscRing α :=
  if ring.read = ring.write then (none, ring)
  else (ring.buf[(ring.read &&& ring.mask).toNat]?, { ring with read := ring.read + 1 })

def size (ring : SpscRing α) : Nat := (ring.write - ring.read).toNat

def step (ring : SpscRing α) : RingOp α → RingAnswer α × SpscRing α
  | .push v => (.pushed (ring.push v).1, (ring.push v).2)
  | .pop => (.popped ring.pop.1, ring.pop.2)
  | .size => (.counted ring.size, ring)

/-- The ring of capacity `2 ^ k` holds this queue, with its head at the read index. -/
structure Holds (k : Fin 64) (ring : SpscRing α) (queue : List α) : Prop where
  length_buf : ring.buf.length = 2 ^ k.val
  mask : ring.mask = UInt64.ofNat (2 ^ k.val) - 1
  short : queue.length ≤ 2 ^ k.val
  write : ring.write.toNat = (ring.read.toNat + queue.length) % 2 ^ 64
  slots : ∀ i < queue.length, ring.buf[(ring.read.toNat + i) % 2 ^ k.val]? = queue[i]?

theorem two_pow_lt (k : Fin 64) : 2 ^ k.val < 2 ^ 64 := Nat.pow_lt_pow_right (by decide) k.isLt

theorem holds_new (k : Fin 64) (blank : α) : Holds k (new (2 ^ k.val) blank) [] where
  length_buf := length_replicate
  mask := rfl
  short := Nat.zero_le _
  write := rfl
  slots i inside := absurd inside (Nat.not_lt_zero i)

/-- The capacity divides the range of the indices. -/
theorem wrap (k : Fin 64) (n i : Nat) : (n % 2 ^ 64 + i) % 2 ^ k.val = (n + i) % 2 ^ k.val := by
  rw [Nat.add_mod, Nat.mod_mod_of_dvd _ (Nat.pow_dvd_pow 2 k.isLt.le), ← Nat.add_mod]

namespace Holds

variable {k : Fin 64} {ring : SpscRing α} {queue : List α}

section

variable (h : Holds k ring queue)
include h

theorem slot (index : UInt64) : (index &&& ring.mask).toNat = index.toNat % 2 ^ k.val := by
  have bound := UInt64.toNat_ofNat_of_lt' (two_pow_lt k)
  have positive := Nat.two_pow_pos k.val
  have mask : ring.mask.toNat = 2 ^ k.val - 1 := by
    rw [h.mask, UInt64.toNat_sub_of_le, bound]
    · rfl
    · rw [UInt64.le_iff_toNat_le, bound]
      exact positive
  rw [UInt64.toNat_and, mask, Nat.and_two_pow_sub_one_eq_mod]

theorem size_eq : ring.size = queue.length := by
  have bound := two_pow_lt k
  have short := h.short
  have read := ring.read.toNat_lt
  rw [size, UInt64.toNat_sub, h.write]
  omega

theorem read_eq_write_iff : ring.read = ring.write ↔ queue = [] := by
  have bound := two_pow_lt k
  have short := h.short
  have read := ring.read.toNat_lt
  rw [← UInt64.toNat_inj, h.write, ← length_eq_zero_iff]
  omega

theorem push_full (full : queue.length = 2 ^ k.val) (v : α) : ring.push v = (false, ring) := by
  have size := h.size_eq
  rw [push, if_pos]
  rw [h.length_buf, ← full, ← size, SpscRing.size]

theorem push_room (room : queue.length < 2 ^ k.val) (v : α) :
    (ring.push v).1 = true ∧ Holds k (ring.push v).2 (queue ++ [v]) := by
  have size := h.size_eq
  rw [SpscRing.size] at size
  have length : (queue ++ [v]).length = queue.length + 1 := length_append
  rw [push, if_neg (by rw [h.length_buf, size]; omega)]
  refine ⟨rfl, length_set.trans h.length_buf, h.mask, length.trans_le room, ?_, ?_⟩
  · change (ring.write + 1).toNat = (ring.read.toNat + _) % 2 ^ 64
    rw [UInt64.toNat_add, UInt64.toNat_one, h.write, length]
    omega
  · intro i inside
    change (ring.buf.set (ring.write &&& ring.mask).toNat v)[(ring.read.toNat + i) % _]? = _
    have last := wrap k (ring.read.toNat + queue.length) 0
    rw [Nat.add_zero, Nat.add_zero] at last
    rw [h.slot, h.write, last]
    rw [length] at inside
    by_cases new : i = queue.length
    · rw [new, List.getElem?_set_self, List.getElem?_concat_length]
      rw [h.length_buf]
      exact Nat.mod_lt _ (Nat.two_pow_pos k.val)
    · have differ : (ring.read.toNat + queue.length) % 2 ^ k.val ≠
          (ring.read.toNat + i) % 2 ^ k.val := by
        intro same
        have offset := Nat.ModEq.add_left_cancel' ring.read.toNat same
        rw [Nat.ModEq, Nat.mod_eq_of_lt room, Nat.mod_eq_of_lt (by omega)] at offset
        exact new offset.symm
      rw [List.getElem?_set_ne differ, h.slots i (by omega), List.getElem?_append_left (by omega)]

end

theorem pop_cons (h : Holds k ring (v :: queue)) :
    ring.pop.1 = some v ∧ Holds k ring.pop.2 queue := by
  have first := h.slots 0 (Nat.zero_lt_succ _)
  rw [pop, if_neg (mt h.read_eq_write_iff.mp (cons_ne_nil v queue))]
  have next : (ring.read + 1).toNat = (ring.read.toNat + 1) % 2 ^ 64 := UInt64.toNat_add _ _
  refine ⟨by rw [h.slot]; exact first, h.length_buf, h.mask, Nat.le_of_succ_le h.short, ?_, ?_⟩
  · rw [h.write, length_cons]
    change _ = ((ring.read + 1).toNat + _) % _
    omega
  · intro i inside
    change ring.buf[((ring.read + 1).toNat + i) % _]? = _
    rw [next, wrap, Nat.add_right_comm]
    exact h.slots (i + 1) (Nat.succ_lt_succ inside)

theorem step (h : Holds k ring queue) (op : RingOp α) :
    (ring.step op).1 = (fifoStep (2 ^ k.val) queue op).1 ∧
      Holds k (ring.step op).2 (fifoStep (2 ^ k.val) queue op).2 := by
  cases op with
  | push v =>
    rw [SpscRing.step, fifoStep]
    by_cases full : queue.length = 2 ^ k.val
    · rw [h.push_full full, if_pos full]
      exact ⟨rfl, h⟩
    · have pushed := h.push_room (Nat.lt_of_le_of_ne h.short full) v
      rw [if_neg full, pushed.1]
      exact ⟨rfl, pushed.2⟩
  | pop =>
    cases queue with
    | nil =>
      rw [SpscRing.step, pop, if_pos (h.read_eq_write_iff.mpr rfl)]
      exact ⟨rfl, h⟩
    | cons v queue =>
      rw [SpscRing.step, h.pop_cons.1]
      exact ⟨rfl, h.pop_cons.2⟩
  | size =>
    rw [SpscRing.step, h.size_eq]
    exact ⟨rfl, h⟩

theorem answers_eq (h : Holds k ring queue) (ops : List (RingOp α)) :
    answers SpscRing.step ring ops = answers (fifoStep (2 ^ k.val)) queue ops := by
  induction ops generalizing ring queue with
  | nil => rfl
  | cons op ops ih =>
    obtain ⟨answer, next⟩ := h.step op
    rw [answers, answers, answer, ih next]

end Holds

/-- For every capacity that a `size_t` can hold, and for sequences of calls of any length, the
ring is a queue of bounded length. -/
theorem ring_refines_fifo (k : Fin 64) (blank : α) (ops : List (RingOp α)) :
    answers step (new (2 ^ k.val) blank) ops = answers (fifoStep (2 ^ k.val)) [] ops :=
  (holds_new k blank).answers_eq ops

end SpscRing

end Scshr.Common
