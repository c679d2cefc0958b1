import Mathlib.Data.List.Basic

/-! Pieces at known places of a list: what a writer that concatenates leaves where. -/
namespace Scshr.Lib

open List

variable {α : Type*}

structure Placed (d : List α) (pos : Nat) (piece : List α) : Prop where
  inside : pos + piece.length ≤ d.length
  take_eq : (d.drop pos).take piece.length = piece

theorem placed_self (d : List α) : Placed d 0 d where
  inside := Nat.le_of_eq (Nat.zero_add _)
  take_eq := by rw [drop_zero, take_length]

namespace Placed

variable {d piece rest : List α} {pos : Nat} {x : α}

theorem left (placed : Placed d pos (piece ++ rest)) : Placed d pos piece where
  inside := by
    have := placed.inside
    rw [length_append] at this
    omega
  take_eq := by
    have start := congrArg (List.take piece.length) placed.take_eq
    rw [take_take, take_left, length_append, Nat.min_eq_left (by omega)] at start
    exact start

theorem right (placed : Placed d pos (piece ++ rest)) : Placed d (pos + piece.length) rest where
  inside := by
    have := placed.inside
    rw [length_append] at this
    omega
  take_eq := by
    have after := congrArg (List.drop piece.length) placed.take_eq
    rw [drop_take, drop_drop, drop_left, length_append,
      Nat.add_sub_cancel_left] at after
    exact after

theorem take (placed : Placed d pos piece) (n : Nat) : Placed d pos (piece.take n) := by
  have split : Placed d pos (piece.take n ++ piece.drop n) := by
    rw [take_append_drop]
    exact placed
  exact split.left

theorem head (placed : Placed d pos (x :: rest)) : d[pos]? = some x := by
  have first := congrArg List.head? placed.take_eq
  rw [length_cons, List.head?_take, if_neg (by omega), List.head?_drop] at first
  exact first

theorem drop_eq (placed : Placed d pos piece) :
    d.drop pos = piece ++ d.drop (pos + piece.length) := by
  have split := take_append_drop piece.length (d.drop pos)
  rw [placed.take_eq, drop_drop] at split
  exact split.symm

theorem tail (placed : Placed d pos (x :: rest)) : Placed d (pos + 1) rest := by
  have split : Placed d pos ([x] ++ rest) := placed
  exact split.right

theorem flatten (pieces : List (List α)) (placed : Placed d pos pieces.flatten) (i : Nat)
    (piece : List α) (found : pieces[i]? = some piece) :
    Placed d (pos + (pieces.take i).flatten.length) piece := by
  induction pieces generalizing pos i with
  | nil => cases found
  | cons first others ih =>
    rw [flatten_cons] at placed
    cases i with
    | zero =>
      cases found
      exact placed.left
    | succ i =>
      have later := ih placed.right i found
      rw [take_succ_cons, flatten_cons, length_append, ← Nat.add_assoc]
      exact later

end Placed

def offsetsFrom : Nat → List (List α) → List Nat
  | _, [] => []
  | pos, piece :: pieces => pos :: offsetsFrom (pos + piece.length) pieces

variable (pieces : List (List α))

theorem length_offsetsFrom (pos : Nat) : (offsetsFrom pos pieces).length = pieces.length := by
  induction pieces generalizing pos with
  | nil => rfl
  | cons piece pieces ih => rw [offsetsFrom, length_cons, ih, length_cons]

theorem offsetsFrom_getElem? (pos i : Nat) (inside : i < pieces.length) :
    (offsetsFrom pos pieces)[i]? = some (pos + (pieces.take i).flatten.length) := by
  induction pieces generalizing pos i with
  | nil => exact absurd inside (Nat.not_lt_zero i)
  | cons piece pieces ih =>
    cases i with
    | zero => rfl
    | succ i =>
      have later := ih (pos + piece.length) i (Nat.lt_of_succ_lt_succ inside)
      rw [take_succ_cons, flatten_cons, length_append, ← Nat.add_assoc]
      exact later

theorem mem_offsetsFrom_lt (pos : Nat) (filled : ∀ piece ∈ pieces, piece ≠ []) (offset : Nat)
    (mem : offset ∈ offsetsFrom pos pieces) : offset < pos + pieces.flatten.length := by
  induction pieces generalizing pos with
  | nil => exact absurd mem not_mem_nil
  | cons piece pieces ih =>
    have some := length_pos_iff.mpr (filled piece mem_cons_self)
    rw [flatten_cons, length_append]
    rcases mem_cons.mp mem with rfl | later
    · omega
    · have := ih (pos + piece.length) (fun p h => filled p (mem_cons_of_mem piece h)) later
      omega

end Scshr.Lib
