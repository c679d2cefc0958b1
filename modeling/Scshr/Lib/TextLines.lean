import Mathlib.Data.List.Basic
import Mathlib.Data.List.DropRight

/-! Texts as lines.  A line ends at a separator; what stands behind the last
separator is a line of its own unless it is empty.  A line is trimmed at both ends. -/
namespace Scshr.Lib.Text

open List

section

variable {α : Type} [DecidableEq α]

def lines (sep : α) : List α → List (List α)
  | [] => []
  | c :: rest =>
      if c = sep then [] :: lines sep rest
      else
        match lines sep rest with
        | [] => [[c]]
        | line :: more => (c :: line) :: more

def unlines (sep : α) (text : List (List α)) : List α := text.flatMap (· ++ [sep])

def contains (pattern : List α) : List α → Bool
  | [] => pattern.isEmpty
  | c :: rest => pattern.isPrefixOf (c :: rest) || contains pattern rest

variable {sep : α} {line rest text : List α} {all : List (List α)}

omit [DecidableEq α] in
@[simp] theorem unlines_nil : unlines sep [] = [] := rfl

omit [DecidableEq α] in
@[simp] theorem unlines_cons : unlines sep (line :: all) = line ++ sep :: unlines sep all := by
  rw [unlines, flatMap_cons, append_assoc]
  rfl

omit [DecidableEq α] in
theorem unlines_append (more : List (List α)) :
    unlines sep (all ++ more) = unlines sep all ++ unlines sep more :=
  flatMap_append

omit [DecidableEq α] in
theorem unlines_eq_intercalate (all : List (List α)) :
    unlines sep all = [sep].intercalate (all ++ [[]]) := by
  induction all with
  | nil => rfl
  | cons line more ih =>
    have hmore : more ++ [[]] ≠ [] := by simp
    obtain ⟨next, rest, hnext⟩ := exists_cons_of_ne_nil hmore
    rw [unlines_cons, ih, cons_append, hnext, intercalate_cons_cons, append_assoc]
    rfl

theorem splitOn_unlines (h : ∀ line ∈ all, sep ∉ line) :
    (unlines sep all).splitOn sep = all ++ [[]] := by
  rw [unlines_eq_intercalate]
  apply splitOn_intercalate
  · intro line hline
    rw [mem_append, mem_singleton] at hline
    rcases hline with hline | rfl
    · exact h line hline
    · simp
  · simp

theorem splitOn_of_notMem (h : sep ∉ text) : text.splitOn sep = [text] := by
  calc text.splitOn sep = ([sep].intercalate [text]).splitOn sep := by
        rw [intercalate_singleton]
    _ = [text] := by
        apply splitOn_intercalate
        · simpa using h
        · simp

theorem exists_unlines (sep : α) (text : List α) :
    ∃ all last, (∀ line ∈ all, sep ∉ line) ∧ sep ∉ last ∧ text = unlines sep all ++ last := by
  induction text with
  | nil => exact ⟨[], [], by simp, by simp, rfl⟩
  | cons c rest ih =>
    obtain ⟨all, last, hall, hlast, rfl⟩ := ih
    by_cases hc : c = sep
    · subst hc
      exact ⟨[] :: all, last, by simpa using hall, hlast, by simp⟩
    · cases all with
      | nil => exact ⟨[], c :: last, by simp, by simp [hlast, Ne.symm hc], rfl⟩
      | cons line more =>
        rw [forall_mem_cons] at hall
        refine ⟨(c :: line) :: more, last, ?_, hlast, by simp⟩
        rw [forall_mem_cons]
        exact ⟨by simp [hall.1, Ne.symm hc], hall.2⟩

theorem exists_line (h : sep ∈ text) :
    ∃ line rest, sep ∉ line ∧ text = line ++ sep :: rest := by
  obtain ⟨all, last, hall, hlast, rfl⟩ := exists_unlines sep text
  cases all with
  | nil => exact absurd h hlast
  | cons line more =>
    rw [forall_mem_cons] at hall
    exact ⟨line, unlines sep more ++ last, hall.1, by simp⟩

theorem lines_of_notMem (h : sep ∉ line) : lines sep line = if line = [] then [] else [line] := by
  induction line with
  | nil => rfl
  | cons c rest ih =>
    rw [mem_cons, not_or] at h
    rw [lines, if_neg (Ne.symm h.1), ih h.2]
    cases rest with
    | nil => rfl
    | cons d tail => rfl

theorem lines_line_append (h : sep ∉ line) :
    lines sep (line ++ sep :: rest) = line :: lines sep rest := by
  induction line with
  | nil => simp [lines]
  | cons c tail ih =>
    rw [mem_cons, not_or] at h
    rw [cons_append, lines, if_neg (Ne.symm h.1), ih h.2]

theorem lines_unlines_append (h : ∀ line ∈ all, sep ∉ line) :
    lines sep (unlines sep all ++ rest) = all ++ lines sep rest := by
  induction all with
  | nil => rfl
  | cons line more ih =>
    rw [forall_mem_cons] at h
    rw [unlines_cons, append_assoc, cons_append, lines_line_append h.1, ih h.2]
    rfl

@[simp] theorem lines_unlines (h : ∀ line ∈ all, sep ∉ line) :
    lines sep (unlines sep all) = all := by
  have hall : lines sep (unlines sep all ++ []) = all ++ lines sep [] := lines_unlines_append h
  simpa [lines] using hall

theorem sep_notMem_of_mem_lines (h : line ∈ lines sep text) : sep ∉ line := by
  obtain ⟨all, last, hall, hlast, rfl⟩ := exists_unlines sep text
  rw [lines_unlines_append hall, lines_of_notMem hlast, mem_append] at h
  rcases h with h | h
  · exact hall line h
  · by_cases hnil : last = []
    · simp [hnil] at h
    · rw [if_neg hnil, mem_singleton] at h
      rwa [h]

theorem mem_of_mem_lines (h : line ∈ lines sep text) (hc : c ∈ line) : c ∈ text := by
  obtain ⟨all, last, hall, hlast, rfl⟩ := exists_unlines sep text
  rw [lines_unlines_append hall, lines_of_notMem hlast, mem_append] at h
  rw [mem_append]
  rcases h with h | h
  · rw [unlines, mem_flatMap]
    exact .inl ⟨line, h, mem_append_left _ hc⟩
  · by_cases hnil : last = []
    · simp [hnil] at h
    · rw [if_neg hnil, mem_singleton] at h
      exact .inr (h ▸ hc)

/-! ## A text behind which a separator is written -/

theorem lines_append_sep (text rest : List α) :
    lines sep (text ++ sep :: rest) = lines sep (text ++ [sep]) ++ lines sep rest := by
  obtain ⟨all, last, hall, hlast, rfl⟩ := exists_unlines sep text
  simp only [append_assoc, lines_unlines_append hall, lines_line_append hlast]
  rfl

theorem mem_lines_between (hall : all ≠ []) (hline : sep ∉ line) (rest : List α) :
    line ∈ lines sep (unlines sep all ++ (line ++ sep :: rest)) := by
  obtain ⟨front, last, rfl⟩ : ∃ front last, all = front ++ [last] :=
    ⟨all.dropLast, all.getLast hall, (dropLast_append_getLast hall).symm⟩
  have htext : unlines sep (front ++ [last]) ++ (line ++ sep :: rest) =
      (unlines sep front ++ last) ++ sep :: (line ++ sep :: rest) := by
    simp [unlines_append]
  rw [htext, lines_append_sep, mem_append, lines_line_append hline]
  exact .inr mem_cons_self

theorem unlines_lines_append_sep (text : List α) :
    unlines sep (lines sep (text ++ [sep])) = text ++ [sep] := by
  obtain ⟨all, last, hall, hlast, rfl⟩ := exists_unlines sep text
  simp [lines_unlines_append hall, lines_line_append hlast, unlines_append, lines]

theorem lines_append_sep_ne_nil (text : List α) : lines sep (text ++ [sep]) ≠ [] := by
  intro hnil
  have htext : unlines sep (lines sep (text ++ [sep])) = text ++ [sep] :=
    unlines_lines_append_sep text
  rw [hnil] at htext
  exact absurd htext (by simp)

theorem mem_lines_append_sep (h : line ∈ lines sep (text ++ [sep])) :
    line ∈ lines sep text ∨ line = [] := by
  obtain ⟨all, last, hall, hlast, rfl⟩ := exists_unlines sep text
  rw [append_assoc, lines_unlines_append hall, lines_line_append hlast,
    mem_append] at h
  rw [lines_unlines_append hall, lines_of_notMem hlast, mem_append]
  rcases h with h | h
  · exact .inl (.inl h)
  · rw [lines, mem_singleton] at h
    by_cases hnil : last = []
    · exact .inr (h.trans hnil)
    · exact .inl (.inr (by simp [hnil, h]))

theorem filter_lines_append_sep (text : List α) :
    (lines sep (text ++ [sep])).filter (· ≠ []) = (lines sep text).filter (· ≠ []) := by
  obtain ⟨all, last, hall, hlast, rfl⟩ := exists_unlines sep text
  rw [append_assoc, lines_unlines_append hall, lines_line_append hlast,
    lines_unlines_append hall, lines_of_notMem hlast, filter_append, filter_append]
  split
  · next hnil =>
    subst hnil
    rfl
  · rfl

theorem contains_iff : contains pattern line ↔ pattern <:+: line := by
  induction line with
  | nil => simp [contains]
  | cons c rest ih => simp [contains, infix_cons_iff, ih]

end

section Trim

variable {α : Type} {blank : α → Bool} {c : α} {text : List α}

def trim (blank : α → Bool) (text : List α) : List α := (text.dropWhile blank).rdropWhile blank

theorem trim_eq_self (front : ∀ c ∈ text.head?, blank c = false)
    (back : ∀ c ∈ text.getLast?, blank c = false) : trim blank text = text := by
  have same : text.dropWhile blank = text := by
    cases text with
    | nil => rfl
    | cons c rest => rw [dropWhile_cons, front c rfl, if_neg Bool.false_ne_true]
  rw [trim, same, rdropWhile_eq_self_iff]
  intro nonempty last
  rw [back _ (List.getLast?_eq_getLast_of_ne_nil nonempty)] at last
  cases last

theorem trim_cons (h : blank c) (text : List α) : trim blank (c :: text) = trim blank text := by
  rw [trim, dropWhile_cons_of_pos h, ← trim]

theorem trim_concat (h : blank c) (text : List α) :
    trim blank (text ++ [c]) = trim blank text := by
  rw [trim, trim, dropWhile_append]
  split
  · next empty =>
    rw [isEmpty_iff.mp empty]
    simp [h]
  · rw [rdropWhile_concat_pos _ _ _ h]

theorem mem_of_mem_trim (h : c ∈ trim blank text) : c ∈ text := by
  have back := rdropWhile_prefix blank (text.dropWhile blank)
  exact (dropWhile_suffix blank).subset (back.subset h)

end Trim

end Scshr.Lib.Text
