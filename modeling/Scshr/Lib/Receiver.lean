import Mathlib.Data.List.Induction
import Mathlib.Data.Set.Insert

/-! A receiver of numbered items that may come late, twice or never.  It keeps the highest
number and the numbers it went past and still waits for; a jump is only followed up to some
reach behind the number it starts from. -/
namespace Scshr.Lib

open List

structure Receiver where
  highest : Int
  missing : Set Int

namespace Receiver

def start (first : Int) : Receiver := ⟨first, ∅⟩

def receive (reach : Int) (receiver : Receiver) (number : Int) : Receiver :=
  if receiver.highest < number then
    ⟨number, receiver.missing ∪
      { skipped | receiver.highest < skipped ∧ skipped ≤ receiver.highest + reach ∧
        skipped < number }⟩
  else { receiver with missing := receiver.missing \ {number} }

def run (reach first : Int) (numbers : List Int) : Receiver :=
  numbers.foldl (receive reach) (start first)

/-- A number that was skipped within reach of the highest one and did not come since. -/
def Missing (reach first : Int) (numbers : List Int) (number : Int) : Prop :=
  ∃ before jump after, numbers = before ++ jump :: after ∧
    before.foldl max first < number ∧ number ≤ before.foldl max first + reach ∧
    number < jump ∧ number ∉ after

variable {reach first number next : Int} {numbers : List Int}

theorem run_append (reach first : Int) (numbers : List Int) (next : Int) :
    run reach first (numbers ++ [next]) = (run reach first numbers).receive reach next := by
  rw [run, foldl_append]
  rfl

theorem highest_receive (reach : Int) (receiver : Receiver) (number : Int) :
    (receiver.receive reach number).highest = max receiver.highest number := by
  unfold receive
  split
  case isTrue above => exact (max_eq_right above.le).symm
  case isFalse below => exact (max_eq_left (not_lt.mp below)).symm

theorem highest_run (reach first : Int) (numbers : List Int) :
    (run reach first numbers).highest = numbers.foldl max first := by
  induction numbers using List.reverseRecOn with
  | nil => rfl
  | append_singleton numbers next ih =>
    rw [run_append, highest_receive, ih, foldl_append]
    rfl

theorem le_foldl_max (first : Int) (numbers : List Int) : first ≤ numbers.foldl max first := by
  induction numbers generalizing first with
  | nil => exact le_rfl
  | cons next numbers ih => exact (le_max_left first next).trans (ih (max first next))

theorem Missing.first_lt (missing : Missing reach first numbers number) : first < number := by
  obtain ⟨before, jump, after, -, above, -⟩ := missing
  exact (le_foldl_max first before).trans_lt above

theorem Missing.lt_of_mem (missing : Missing reach first numbers number) :
    ∃ jump ∈ numbers, number < jump := by
  obtain ⟨before, jump, after, rfl, -, -, below, -⟩ := missing
  exact ⟨jump, mem_append_right before mem_cons_self, below⟩

theorem Missing.lt_highest (missing : Missing reach first numbers number) :
    number < numbers.foldl max first := by
  obtain ⟨before, jump, after, rfl, -, -, below, -⟩ := missing
  rw [foldl_append, foldl_cons]
  exact (below.trans_le (le_max_right _ jump)).trans_le (le_foldl_max _ after)

theorem missing_append :
    Missing reach first (numbers ++ [next]) number ↔
      Missing reach first numbers number ∧ number ≠ next ∨
        numbers.foldl max first < number ∧ number ≤ numbers.foldl max first + reach ∧
          number < next := by
  constructor
  · rintro ⟨before, jump, after, same, above, near, below, notSince⟩
    induction after using List.reverseRecOn with
    | nil =>
      obtain ⟨rfl, last⟩ := append_inj' same rfl
      obtain rfl : next = jump := (List.cons.inj last).1
      exact .inr ⟨above, near, below⟩
    | append_singleton after last _ =>
      rw [← cons_append, ← append_assoc] at same
      obtain ⟨rfl, ending⟩ := append_inj' same rfl
      obtain rfl : next = last := (List.cons.inj ending).1
      rw [mem_append, mem_singleton, not_or] at notSince
      exact .inl ⟨⟨before, jump, after, rfl, above, near, below, notSince.1⟩, notSince.2⟩
  · rintro (⟨⟨before, jump, after, rfl, above, near, below, notSince⟩, differs⟩ |
      ⟨above, near, below⟩)
    · refine ⟨before, jump, after ++ [next], append_assoc _ _ _, above, near, below, ?_⟩
      rw [mem_append, mem_singleton, not_or]
      exact ⟨notSince, differs⟩
    · exact ⟨numbers, next, [], rfl, above, near, below, not_mem_nil⟩

theorem mem_missing_run :
    number ∈ (run reach first numbers).missing ↔ Missing reach first numbers number := by
  induction numbers using List.reverseRecOn generalizing number with
  | nil =>
    refine iff_of_false (Set.notMem_empty number) ?_
    intro missing
    obtain ⟨jump, absent, -⟩ := missing.lt_of_mem
    cases absent
  | append_singleton numbers next ih =>
    rw [run_append, missing_append, ← ih, receive, highest_run]
    split
    case isTrue above =>
      have differs : number ∈ (run reach first numbers).missing → number ≠ next := by
        rintro missing rfl
        exact lt_asymm above (ih.mp missing).lt_highest
      rw [and_iff_left_of_imp differs]
      rfl
    case isFalse below =>
      refine (or_iff_left ?_).symm
      rintro ⟨above, -, less⟩
      exact below (above.trans less)

end Receiver

end Scshr.Lib
