import Mathlib.Data.List.Basic

/-! Lists read piece by piece: cutting a list into chunks of a size, and reading a stretch of
it index by index. -/
namespace Scshr.Lib

open List

variable {β : Type}

def chunksOf (size : Nat) (list : List β) : List (List β) :=
  (List.range ((list.length + size - 1) / size)).map fun k => (list.drop (k * size)).take size

variable {f : Nat → Option β} {count size : Nat}

theorem filterMap_range (hf : ∀ i < count, (f i).isSome) :
    ((List.range count).filterMap f).length = count ∧
      ∀ i < count, ((List.range count).filterMap f)[i]? = f i := by
  induction count with
  | zero => exact ⟨rfl, fun i hi => absurd hi (Nat.not_lt_zero i)⟩
  | succ count ih =>
    obtain ⟨hlength, hget⟩ := ih fun i hi => hf i (by omega)
    obtain ⟨last, hlast⟩ := Option.isSome_iff_exists.mp (hf count (by omega))
    rw [range_succ, filterMap_append, filterMap_cons_some hlast, filterMap_nil]
    refine ⟨by rw [length_append, hlength]; rfl, ?_⟩
    intro i hi
    rcases Nat.lt_succ_iff_lt_or_eq.mp hi with hbefore | rfl
    · rw [List.getElem?_append_left (by omega), hget i hbefore]
    · rw [List.getElem?_append_right (by omega), hlength, Nat.sub_self, hlast]
      rfl

theorem mapM_range_eq (list : List β) (hf : ∀ i < count, f i = list[off + i]?)
    (hcount : off + count ≤ list.length) :
    (List.range count).mapM f = some ((list.drop off).take count) := by
  induction count with
  | zero => rfl
  | succ count ih =>
    have hlast : off + count < list.length := by omega
    rw [range_succ, mapM_append, ih (fun i hi => hf i (by omega)) (by omega)]
    simp [hf count (by omega), List.getElem?_eq_getElem hlast, take_add_one,
      List.getElem?_drop]

theorem flatten_chunksOf (hsize : 0 < size) (list : List β) :
    (chunksOf size list).flatten = list := by
  have hfront : ∀ count,
      ((List.range count).map fun k => (list.drop (k * size)).take size).flatten =
        list.take (count * size) := by
    intro count
    induction count with
    | zero => simp
    | succ count ih =>
      rw [range_succ, map_append, flatten_append, ih, Nat.succ_mul, take_add]
      simp
  rw [chunksOf, hfront]
  apply take_of_length_le
  have hmod := Nat.div_add_mod (list.length + size - 1) size
  have hlt := Nat.mod_lt (list.length + size - 1) hsize
  rw [Nat.mul_comm]
  omega

theorem chunksOf_ne_nil (hsize : 0 < size) (h : chunk ∈ chunksOf size list) :
    chunk ≠ [] ∧ chunk.length ≤ size := by
  obtain ⟨k, hk, rfl⟩ := mem_map.mp h
  have hlt : k * size < list.length := by
    have hmul := Nat.mul_le_of_le_div size (k + 1) _ (mem_range.mp hk)
    rw [Nat.succ_mul] at hmul
    omega
  constructor
  · apply ne_nil_of_length_pos
    rw [length_take, length_drop]
    omega
  · exact length_take_le ..

end Scshr.Lib
