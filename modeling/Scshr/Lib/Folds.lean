import Mathlib.Data.List.Induction

/-! The owner of an element in a list joined from pieces, and the fold that keeps what came
since the last key element. -/
namespace Scshr.Lib

open List

variable {α β : Type}

theorem exists_owner_of_flatMap {piece : β → List α} {items : List β} {before after : List α}
    {item : α} (h : items.flatMap piece = before ++ item :: after) :
    ∃ owner rest front back, (owner :: rest) <:+ items ∧ piece owner = front ++ item :: back ∧
      after = back ++ rest.flatMap piece := by
  induction items generalizing before with
  | nil => simp at h
  | cons first items ih =>
    have hlater {before : List α} (hrest : items.flatMap piece = before ++ item :: after) :
        ∃ owner rest front back, (owner :: rest) <:+ first :: items ∧
          piece owner = front ++ item :: back ∧ after = back ++ rest.flatMap piece := by
      obtain ⟨owner, rest, front, back, hsuffix, hpart, hafter⟩ := ih hrest
      exact ⟨owner, rest, front, back, hsuffix.trans (suffix_cons _ _), hpart, hafter⟩
    rw [flatMap_cons, append_eq_append_iff] at h
    rcases h with ⟨middle, -, hrest⟩ | ⟨middle, hfirst, hrest⟩
    · exact hlater hrest
    · cases middle with
      | nil => exact @hlater [] hrest.symm
      | cons head middle =>
        obtain ⟨rfl, hafter⟩ := List.cons.inj hrest
        exact ⟨first, items, before, middle, suffix_refl _, hfirst, hafter⟩

section Restart

variable (isKey : α → Bool)

/-- A key element starts the list afresh, any other joins it. -/
def restart (kept : List α) (item : α) : List α := if isKey item then [item] else kept ++ [item]

variable {isKey}

theorem mem_foldl_restart :
    item ∈ items.foldl (restart isKey) [] ↔
      ∃ before after, items = before ++ item :: after ∧ ∀ later ∈ after, isKey later = false := by
  induction items using List.reverseRecOn with
  | nil => simp
  | append_singleton items last ih =>
    rw [foldl_append, foldl_cons, foldl_nil, restart]
    constructor
    · intro hmem
      split at hmem
      · obtain rfl := mem_singleton.mp hmem
        exact ⟨items, [], rfl, nofun⟩
      · rename_i hlast
        rcases mem_append.mp hmem with hold | hnew
        · obtain ⟨before, after, hitems, hafter⟩ := ih.mp hold
          refine ⟨before, after ++ [last], by simp [hitems], ?_⟩
          intro later hlater
          rcases mem_append.mp hlater with hmem | hmem
          · exact hafter later hmem
          · rw [mem_singleton.mp hmem]
            exact Bool.eq_false_iff.mpr hlast
        · obtain rfl := mem_singleton.mp hnew
          exact ⟨items, [], rfl, nofun⟩
    · rintro ⟨before, after, hitems, hafter⟩
      rcases eq_nil_or_concat after with rfl | ⟨front, back, rfl⟩
      · obtain ⟨-, hlast⟩ := append_inj' hitems rfl
        obtain rfl := (List.cons.inj hlast).1
        split
        · exact mem_singleton_self _
        · exact mem_append_right _ (mem_singleton_self _)
      · have hassoc :
            before ++ item :: (front ++ [back]) = (before ++ item :: front) ++ [back] := by simp
        rw [concat_eq_append, hassoc] at hitems
        obtain ⟨hfront, hback⟩ := append_inj' hitems rfl
        obtain rfl := (List.cons.inj hback).1
        rw [concat_eq_append] at hafter
        have hplain := hafter last (mem_append_right _ (mem_singleton_self _))
        rw [if_neg (by rw [hplain]; decide)]
        apply mem_append_left
        exact ih.mpr ⟨before, front, hfront, fun later hlater =>
          hafter later (mem_append_left _ hlater)⟩

end Restart

end Scshr.Lib
