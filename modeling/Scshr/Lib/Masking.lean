import Mathlib.Data.List.Infix
import Mathlib.Data.List.TakeWhile

/-! Masking the rest of a line behind a key.  A pass searches a text for one key; from the
first character behind the key and the separators that follow it up to the next break, the text
is replaced by a mask, and the search goes on behind the mask.

The keys have a letter they can only begin with, so that two of them never overlap; several
passes then do the same on texts that differ behind a key only, and doing them again changes
nothing. -/
namespace Scshr.Lib.Masking

open List hiding tail

structure Style (α : Type) where
  isSep : α → Bool
  isBreak : α → Bool
  mask : List α

section

variable {α : Type} [DecidableEq α]

def search (key : List α) : List α → Option Nat
  | [] => none
  | c :: rest => if key <+: c :: rest then some 0 else (search key rest).map (· + 1)

variable (style : Style α)

def maskText (key : List α) : List α → List α
  | [] => []
  | c :: rest =>
    if key <+: c :: rest then
      -- what follows a key that is not empty
      let after := rest.drop (key.length - 1)
      key ++ after.takeWhile style.isSep ++ style.mask ++
        maskText key ((after.dropWhile style.isSep).dropWhile fun d => !style.isBreak d)
    else c :: maskText key rest
termination_by text => text.length
decreasing_by
  · have shorter := ((dropWhile_suffix _).trans ((dropWhile_suffix _).trans
      (drop_suffix (key.length - 1) rest)) :
      ((rest.drop (key.length - 1)).dropWhile style.isSep).dropWhile
        (fun d => !style.isBreak d) <:+ rest).length_le
    exact Nat.lt_succ_of_le shorter
  · exact Nat.lt_succ_self _

def maskLine (key : List α) : List α → List α
  | [] => []
  | c :: rest =>
    if key <+: c :: rest then
      key ++ (rest.drop (key.length - 1)).takeWhile style.isSep ++ style.mask
    else c :: maskLine key rest

def maskAll (keys : List (List α)) (text : List α) : List α :=
  keys.foldl (fun out key => maskText style key out) text

def maskLineAll (keys : List (List α)) (line : List α) : List α :=
  keys.foldl (fun out key => maskLine style key out) line

end

/-- Keys that begin with a letter of their own: it stands neither further behind in a key nor
in the separators or the mask. -/
structure Marks {α : Type} (style : Style α) (initial : α → Bool) (keys : List (List α)) :
    Prop where
  sep : ∀ c, style.isSep c = true → initial c = false ∧ style.isBreak c = false
  mask : ∀ c ∈ style.mask, initial c = false ∧ style.isBreak c = false
  masked : ∀ c ∈ style.mask.head?, style.isSep c = false
  key : ∀ key ∈ keys, ∃ c tail, key = c :: tail ∧ initial c = true ∧
    style.isBreak c = false ∧ ∀ d ∈ tail, initial d = false ∧ style.isBreak d = false
  apart : ∀ key ∈ keys, ∀ other ∈ keys, key <+: other → key = other

section Same

variable {α : Type} (style : Style α) (keys : List (List α))

inductive SameLine : List α → List α → Prop where
  | same (line : List α) : SameLine line line
  | secret (front key seps one two : List α) (isKey : key ∈ keys)
      (sep : ∀ c ∈ seps, style.isSep c = true)
      (first : ∀ c ∈ one.head?, style.isSep c = false)
      (second : ∀ c ∈ two.head?, style.isSep c = false) :
      SameLine (front ++ (key ++ (seps ++ one))) (front ++ (key ++ (seps ++ two)))

def NoBreak (line : List α) : Prop := ∀ c ∈ line, style.isBreak c = false

/-- Two texts with the same breaks whose lines are equal or differ behind a key only. -/
inductive SameText : List α → List α → Prop where
  | last {one two : List α} (lines : SameLine style keys one two) (first : NoBreak style one)
      (second : NoBreak style two) : SameText one two
  | next {one two oneRest twoRest : List α} {c : α} (lines : SameLine style keys one two)
      (first : NoBreak style one) (second : NoBreak style two) (isBreak : style.isBreak c = true)
      (rest : SameText oneRest twoRest) : SameText (one ++ c :: oneRest) (two ++ c :: twoRest)

theorem lines_induction {motive : List α → Prop} (last : ∀ line, NoBreak style line → motive line)
    (next : ∀ line c rest, NoBreak style line → style.isBreak c = true → motive rest →
      motive (line ++ c :: rest)) (text : List α) : motive text := by
  suffices main : ∀ front, NoBreak style front → motive (front ++ text) from
    main [] fun c absent => absurd absent not_mem_nil
  induction text with
  | nil =>
    intro front unbroken
    rw [append_nil]
    exact last front unbroken
  | cons c rest ih =>
    intro front unbroken
    by_cases breaks : style.isBreak c = true
    · exact next front c rest unbroken breaks (ih [] fun d absent => absurd absent not_mem_nil)
    · rw [append_cons]
      refine ih (front ++ [c]) (forall_mem_append.mpr ⟨unbroken, ?_⟩)
      exact forall_mem_singleton.mpr (Bool.not_eq_true _ ▸ breaks)

end Same

/-! ## Lists -/

section Lists

variable {α : Type} {p : α → Bool} {front tail : List α}

theorem takeWhile_append_stop (stop : ∀ c ∈ tail.head?, p c = false) :
    (front ++ tail).takeWhile p = front.takeWhile p := by
  induction front with
  | nil =>
    cases tail with
    | nil => rfl
    | cons c rest => rw [nil_append, takeWhile_cons, stop c rfl]; rfl
  | cons c front ih =>
    rw [cons_append, takeWhile_cons, takeWhile_cons, ih]

theorem dropWhile_append_stop (stop : ∀ c ∈ tail.head?, p c = false) :
    (front ++ tail).dropWhile p = front.dropWhile p ++ tail := by
  induction front with
  | nil =>
    cases tail with
    | nil => rfl
    | cons c rest => rw [nil_append, dropWhile_cons, stop c rfl]; rfl
  | cons c front ih =>
    rw [cons_append, dropWhile_cons, dropWhile_cons, ih]
    split <;> rfl

theorem takeWhile_eq_front (all : ∀ c ∈ front, p c = true) (stop : ∀ c ∈ tail.head?, p c = false) :
    (front ++ tail).takeWhile p = front := by
  rw [takeWhile_append_stop stop, takeWhile_eq_self_iff.mpr all]

theorem prefix_of_prefix_append (fits : list <+: front ++ tail)
    (stop : ∀ c ∈ tail.head?, c ∉ list) :
    list <+: front := by
  rcases prefix_or_prefix_of_prefix fits (prefix_append front tail) with
    inside | ⟨rest, rfl⟩
  · exact inside
  · cases rest with
    | nil => rw [append_nil]
    | cons c rest =>
      obtain ⟨back, rfl⟩ := (prefix_append_right_inj front).mp fits
      exact absurd (mem_append_right front mem_cons_self) (stop c rfl)

end Lists

/-! ## Keys -/

namespace Marks

variable {α : Type} {style : Style α} {initial : α → Bool} {keys : List (List α)}
  (marks : Marks style initial keys)

include marks

variable {key : List α} {c : α}

theorem nonempty (isKey : key ∈ keys) : key ≠ [] := by
  obtain ⟨c, tail, rfl, -⟩ := marks.key key isKey
  exact cons_ne_nil c tail

theorem not_sep (begins : initial c = true) : style.isSep c = false := by
  rw [← Bool.not_eq_true]
  intro sep
  have plain := (marks.sep c sep).1
  rw [begins] at plain
  cases plain

theorem key_head (isKey : key ∈ keys) (rest : List α) :
    ∀ c ∈ (key ++ rest).head?, style.isSep c = false := by
  obtain ⟨d, tail, rfl, begins, -⟩ := marks.key key isKey
  intro c first
  obtain rfl : d = c := Option.some.inj first
  exact marks.not_sep begins

theorem key_noBreak (isKey : key ∈ keys) : NoBreak style key := by
  obtain ⟨c, tail, rfl, -, first, plain⟩ := marks.key key isKey
  exact forall_mem_cons.mpr ⟨first, fun d inside => (plain d inside).2⟩

theorem break_not_sep (breaks : style.isBreak c = true) : style.isSep c = false := by
  rw [← Bool.not_eq_true]
  intro sep
  have unbroken := (marks.sep c sep).2
  rw [breaks] at unbroken
  cases unbroken

theorem prefix_front (isKey : key ∈ keys) (isOther : other ∈ keys)
    (fits : key <+: c :: front ++ (other ++ rest)) : key <+: c :: front := by
  obtain ⟨d, tail, rfl, -, -, plain⟩ := marks.key key isKey
  obtain ⟨rfl, behind⟩ := cons_prefix_cons.mp fits
  refine cons_prefix_cons.mpr ⟨rfl, prefix_of_prefix_append behind ?_⟩
  intro e first inside
  obtain ⟨f, tail, rfl, begins, -⟩ := marks.key other isOther
  obtain rfl : f = e := Option.some.inj first
  rw [(plain f inside).1] at begins
  cases begins

end Marks

/-! ## One line -/

section Line

variable {α : Type} [DecidableEq α] {style : Style α} {initial : α → Bool}
  {keys : List (List α)}

theorem maskLine_hit (nonempty : key ≠ []) (fits : key <+: line) :
    maskLine style key line =
      key ++ (line.drop key.length).takeWhile style.isSep ++ style.mask := by
  cases line with
  | nil => exact absurd (prefix_nil.mp fits) nonempty
  | cons c rest =>
    rw [maskLine, if_pos fits]
    cases key with
    | nil => exact absurd rfl nonempty
    | cons d tail => rfl

theorem maskLine_miss (misses : ¬ key <+: c :: rest) :
    maskLine style key (c :: rest) = c :: maskLine style key rest := by
  rw [maskLine, if_neg misses]

theorem maskLineAll_fixed (fixed : ∀ key ∈ passes, maskLine style key line = line) :
    maskLineAll style passes line = line := by
  induction passes with
  | nil => rfl
  | cons pass passes ih =>
    obtain ⟨first, later⟩ := forall_mem_cons.mp fixed
    rw [maskLineAll, foldl_cons, first]
    exact ih later

namespace Marks

variable (marks : Marks style initial keys)

include marks

variable {key rest other seps line pass : List α}

theorem maskLine_skip (isKey : key ∈ keys) (plain : ∀ c ∈ front, initial c = false)
    (rest : List α) :
    maskLine style key (front ++ rest) = front ++ maskLine style key rest := by
  induction front with
  | nil => rfl
  | cons c front ih =>
    obtain ⟨first, later⟩ := forall_mem_cons.mp plain
    have misses : ¬ key <+: c :: (front ++ rest) := by
      obtain ⟨d, tail, rfl, begins, -⟩ := marks.key key isKey
      intro fits
      obtain ⟨rfl, -⟩ := cons_prefix_cons.mp fits
      rw [first] at begins
      cases begins
    rw [cons_append, maskLine_miss misses, ih later, cons_append]

theorem maskLine_other (isKey : key ∈ keys) (isOther : other ∈ keys) (differ : key ≠ other)
    (rest : List α) : maskLine style key (other ++ rest) = other ++ maskLine style key rest := by
  have misses : ¬ key <+: other ++ rest := by
    intro fits
    rcases prefix_or_prefix_of_prefix fits (prefix_append other rest) with short | long
    · exact differ (marks.apart key isKey other isOther short)
    · exact differ (marks.apart other isOther key isKey long).symm
  obtain ⟨c, tail, rfl, -, -, plain⟩ := marks.key other isOther
  rw [cons_append] at misses ⊢
  rw [maskLine_miss misses, marks.maskLine_skip isKey (fun d inside => (plain d inside).1)]
  rfl

theorem maskLine_key (isKey : key ∈ keys) (sep : ∀ c ∈ seps, style.isSep c = true)
    (stop : ∀ c ∈ rest.head?, style.isSep c = false) :
    maskLine style key (key ++ (seps ++ rest)) = key ++ seps ++ style.mask := by
  rw [maskLine_hit (marks.nonempty isKey) (prefix_append key _), drop_left,
    takeWhile_eq_front sep stop]

/-- In front of another key a pass either has its hit, and what follows does not matter, or
it gets to that key. -/
theorem maskLine_front (isKey : key ∈ keys) (isOther : other ∈ keys) (front : List α) :
    (∃ out, ∀ rest, maskLine style key (front ++ (other ++ rest)) = out) ∨
      ∀ rest, maskLine style key (front ++ (other ++ rest)) =
        front ++ maskLine style key (other ++ rest) := by
  induction front with
  | nil => exact .inr fun rest => rfl
  | cons c front ih =>
    by_cases hit : key <+: c :: front
    · refine .inl ⟨key ++ ((c :: front).drop key.length).takeWhile style.isSep ++ style.mask, ?_⟩
      intro rest
      have fits : key <+: c :: front ++ (other ++ rest) := hit.trans (prefix_append _ _)
      rw [maskLine_hit (marks.nonempty isKey) fits, drop_append_of_le_length hit.length_le,
        takeWhile_append_stop (marks.key_head isOther rest)]
    · have misses : ∀ rest, ¬ key <+: c :: (front ++ (other ++ rest)) := fun rest fits =>
        hit (marks.prefix_front isKey isOther fits)
      rcases ih with ⟨out, same⟩ | reaches
      · refine .inl ⟨c :: out, ?_⟩
        intro rest
        rw [cons_append, maskLine_miss (misses rest), same]
      · refine .inr ?_
        intro rest
        rw [cons_append, maskLine_miss (misses rest), reaches, cons_append]

theorem maskLine_head (isKey : key ∈ keys) (stop : ∀ c ∈ line.head?, style.isSep c = false) :
    ∀ c ∈ (maskLine style key line).head?, style.isSep c = false := by
  cases line with
  | nil => exact stop
  | cons c rest =>
    by_cases hit : key <+: c :: rest
    · rw [maskLine_hit (marks.nonempty isKey) hit, append_assoc]
      exact marks.key_head isKey _
    · rw [maskLine_miss hit]
      exact stop

theorem maskLineAll_secret (front : List α) (isKey : key ∈ keys)
    (sep : ∀ c ∈ seps, style.isSep c = true) (passes : List (List α)) (known : passes ⊆ keys)
    (among : key ∈ passes) (first : ∀ c ∈ one.head?, style.isSep c = false)
    (second : ∀ c ∈ two.head?, style.isSep c = false) :
    maskLineAll style passes (front ++ (key ++ (seps ++ one))) =
      maskLineAll style passes (front ++ (key ++ (seps ++ two))) := by
  induction passes generalizing one two with
  | nil => exact absurd among not_mem_nil
  | cons pass passes ih =>
    obtain ⟨isPass, later⟩ := cons_subset.mp known
    have step : ∀ line, maskLineAll style (pass :: passes) line =
        maskLineAll style passes (maskLine style pass line) := fun line => rfl
    rw [step, step]
    rcases marks.maskLine_front isPass isKey front with ⟨out, same⟩ | reaches
    · rw [same, same]
    · rw [reaches, reaches]
      by_cases own : pass = key
      · rw [own, marks.maskLine_key isKey sep first, marks.maskLine_key isKey sep second]
      · have plain : ∀ c ∈ seps, initial c = false := fun c inside => (marks.sep c (sep c inside)).1
        rw [marks.maskLine_other isPass isKey own, marks.maskLine_other isPass isKey own,
          marks.maskLine_skip isPass plain, marks.maskLine_skip isPass plain]
        have left : key ∈ passes := (mem_cons.mp among).resolve_left (Ne.symm own)
        exact ih later left (marks.maskLine_head isPass first) (marks.maskLine_head isPass second)

/-! ## Passes that change nothing -/

theorem prefix_of_maskLine (isKey : key ∈ keys) (plain : ∀ c ∈ tail, initial c = false)
    (fits : tail <+: maskLine style key line) : tail <+: line := by
  induction line generalizing tail with
  | nil => exact fits
  | cons c rest ih =>
    cases tail with
    | nil => exact nil_prefix
    | cons d tail =>
      obtain ⟨first, later⟩ := forall_mem_cons.mp plain
      by_cases hit : key <+: c :: rest
      · rw [maskLine_hit (marks.nonempty isKey) hit] at fits
        obtain ⟨e, keyTail, rfl, begins, -⟩ := marks.key key isKey
        obtain ⟨rfl, -⟩ := cons_prefix_cons.mp fits
        rw [first] at begins
        cases begins
      · rw [maskLine_miss hit] at fits
        obtain ⟨rfl, behind⟩ := cons_prefix_cons.mp fits
        exact cons_prefix_cons.mpr ⟨rfl, ih later behind⟩

theorem not_prefix_maskLine (isKey : key ∈ keys) (isPass : pass ∈ keys)
    (misses : ¬ key <+: c :: rest) : ¬ key <+: c :: maskLine style pass rest := by
  intro fits
  obtain ⟨d, tail, rfl, -, -, plain⟩ := marks.key key isKey
  obtain ⟨rfl, behind⟩ := cons_prefix_cons.mp fits
  exact misses (cons_prefix_cons.mpr ⟨rfl,
    marks.prefix_of_maskLine isPass (fun e inside => (plain e inside).1) behind⟩)

theorem maskLine_masked (isKey : key ∈ keys) (isPass : pass ∈ keys)
    (sep : ∀ c ∈ seps, style.isSep c = true) :
    maskLine style pass (key ++ (seps ++ style.mask)) = key ++ (seps ++ style.mask) := by
  by_cases own : pass = key
  · rw [own, marks.maskLine_key isKey sep marks.masked, append_assoc]
  · have plain : ∀ c ∈ seps ++ style.mask, initial c = false :=
      forall_mem_append.mpr ⟨fun c inside => (marks.sep c (sep c inside)).1,
        fun c inside => (marks.mask c inside).1⟩
    have skip := marks.maskLine_skip isPass plain []
    rw [append_nil] at skip
    rw [marks.maskLine_other isPass isKey own, skip, maskLine, append_nil]

theorem maskLine_self (isKey : key ∈ keys) (line : List α) :
    maskLine style key (maskLine style key line) = maskLine style key line := by
  induction line with
  | nil => rfl
  | cons c rest ih =>
    by_cases hit : key <+: c :: rest
    · rw [maskLine_hit (marks.nonempty isKey) hit, append_assoc]
      exact marks.maskLine_masked isKey isKey (fun _ => mem_takeWhile_imp)
    · rw [maskLine_miss hit, maskLine_miss (marks.not_prefix_maskLine isKey isKey hit), ih]

theorem maskLine_settled (isKey : key ∈ keys) (isPass : pass ∈ keys)
    (settled : maskLine style key line = line) :
    maskLine style key (maskLine style pass line) = maskLine style pass line := by
  induction line with
  | nil => rfl
  | cons c rest ih =>
    by_cases other : pass <+: c :: rest
    · rw [maskLine_hit (marks.nonempty isPass) other, append_assoc]
      exact marks.maskLine_masked isPass isKey (fun _ => mem_takeWhile_imp)
    · by_cases hit : key <+: c :: rest
      · -- the line is a key, separators and the mask already
        have whole := settled.symm.trans (maskLine_hit (marks.nonempty isKey) hit)
        rw [append_assoc] at whole
        rw [whole, marks.maskLine_masked isKey isPass (fun _ => mem_takeWhile_imp),
          marks.maskLine_masked isKey isKey (fun _ => mem_takeWhile_imp)]
      · rw [maskLine_miss hit] at settled
        rw [maskLine_miss other, maskLine_miss (marks.not_prefix_maskLine isKey isPass hit),
          ih (List.cons.inj settled).2]

theorem maskLineAll_settled (isKey : key ∈ keys) (settled : maskLine style key line = line)
    (passes : List (List α)) (known : passes ⊆ keys) :
    maskLine style key (maskLineAll style passes line) = maskLineAll style passes line := by
  induction passes generalizing line with
  | nil => exact settled
  | cons pass passes ih =>
    obtain ⟨isPass, later⟩ := cons_subset.mp known
    exact ih (marks.maskLine_settled isKey isPass settled) later

theorem maskLineAll_leaves (passes : List (List α)) (known : passes ⊆ keys) (line : List α) :
    ∀ key ∈ passes, maskLine style key (maskLineAll style passes line) =
      maskLineAll style passes line := by
  induction passes generalizing line with
  | nil => exact fun key absent => absurd absent not_mem_nil
  | cons pass passes ih =>
    obtain ⟨isPass, later⟩ := cons_subset.mp known
    refine forall_mem_cons.mpr ⟨?_, ih later (maskLine style pass line)⟩
    exact marks.maskLineAll_settled isPass (marks.maskLine_self isPass line) passes later

theorem maskLineAll_idem (passes : List (List α)) (known : passes ⊆ keys) (line : List α) :
    maskLineAll style passes (maskLineAll style passes line) = maskLineAll style passes line :=
  maskLineAll_fixed (marks.maskLineAll_leaves passes known line)

end Marks

end Line

/-! ## A text -/

section Text

variable {α : Type} [DecidableEq α] {style : Style α} {initial : α → Bool} {keys : List (List α)}
  {key text : List α}

theorem search_none (absent : search key text = none) : maskText style key text = text := by
  induction text with
  | nil => rw [maskText]
  | cons c rest ih =>
    rw [search] at absent
    split at absent
    case isTrue => cases absent
    case isFalse misses =>
      rw [maskText, if_neg misses, ih (Option.map_eq_none_iff.mp absent)]

variable (style) in
theorem search_some (hit : search key text = some found) :
    ∃ gap after, text = gap ++ (key ++ after) ∧ gap.length = found ∧
      maskText style key text = gap ++ maskText style key (key ++ after) := by
  induction text generalizing found with
  | nil => cases hit
  | cons c rest ih =>
    rw [search] at hit
    split at hit
    case isTrue fits =>
      obtain ⟨after, whole⟩ := fits
      exact ⟨[], after, whole.symm, Option.some.inj hit, by rw [whole]; rfl⟩
    case isFalse misses =>
      obtain ⟨before, later, rfl⟩ := Option.map_eq_some_iff.mp hit
      obtain ⟨gap, after, rfl, rfl, masked⟩ := ih later
      refine ⟨c :: gap, after, rfl, rfl, ?_⟩
      rw [maskText, if_neg misses, masked, cons_append]

variable (style) in
theorem maskText_hit (nonempty : key ≠ []) (after : List α) :
    ∃ seps value rest, after = seps ++ (value ++ rest) ∧
      (∀ c ∈ seps, style.isSep c = true) ∧
      (∀ c ∈ (value ++ rest).head?, style.isSep c = false) ∧
      NoBreak style value ∧ (∀ c ∈ rest.head?, style.isBreak c = true) ∧
      maskText style key (key ++ after) =
        key ++ (seps ++ (style.mask ++ maskText style key rest)) := by
  have stops (p : α → Bool) (list : List α) : ∀ c ∈ (list.dropWhile p).head?, p c = false := by
    intro c begins
    have none := List.head?_dropWhile_not p list
    rw [Option.mem_def.mp begins] at none
    exact none
  let isValue : α → Bool := fun c => !style.isBreak c
  refine ⟨after.takeWhile style.isSep, (after.dropWhile style.isSep).takeWhile isValue,
    (after.dropWhile style.isSep).dropWhile isValue, ?_, ?_, ?_, ?_, ?_, ?_⟩
  · rw [takeWhile_append_dropWhile, takeWhile_append_dropWhile]
  · exact fun c => mem_takeWhile_imp
  · rw [takeWhile_append_dropWhile]
    exact stops style.isSep after
  · intro c inside
    have kept : isValue c = true := mem_takeWhile_imp inside
    rw [Bool.not_eq_true'] at kept
    exact kept
  · intro c begins
    have left := stops isValue _ c begins
    rw [Bool.not_eq_false'] at left
    exact left
  · have fits := prefix_append key after
    cases key with
    | nil => exact absurd rfl nonempty
    | cons c tail =>
      rw [cons_append] at fits ⊢
      rw [maskText, if_pos fits]
      simp only [length_cons, Nat.add_sub_cancel, drop_left, append_assoc,
        cons_append]
      rfl

namespace Marks

variable (marks : Marks style initial keys)

include marks

variable {line rest one two : List α} {c : α}

theorem maskLine_noBreak (isKey : key ∈ keys) (unbroken : NoBreak style line) :
    NoBreak style (maskLine style key line) := by
  induction line with
  | nil => exact unbroken
  | cons c rest ih =>
    by_cases hit : key <+: c :: rest
    · rw [maskLine_hit (marks.nonempty isKey) hit]
      refine forall_mem_append.mpr ⟨forall_mem_append.mpr ⟨marks.key_noBreak isKey, ?_⟩,
        fun d inside => (marks.mask d inside).2⟩
      exact fun d inside => (marks.sep d (mem_takeWhile_imp inside)).2
    · obtain ⟨first, later⟩ := forall_mem_cons.mp unbroken
      rw [maskLine_miss hit]
      exact forall_mem_cons.mpr ⟨first, ih later⟩

theorem maskText_line (isKey : key ∈ keys) (unbroken : NoBreak style line)
    (stop : ∀ c ∈ tail.head?, style.isBreak c = true) :
    maskText style key (line ++ tail) = maskLine style key line ++ maskText style key tail := by
  induction line with
  | nil => rfl
  | cons c rest ih =>
    obtain ⟨first, later⟩ := forall_mem_cons.mp unbroken
    rw [cons_append, maskText, maskLine]
    by_cases hit : key <+: c :: rest
    · have whole : key <+: c :: (rest ++ tail) := hit.trans (prefix_append (c :: rest) tail)
      have short : key.length - 1 ≤ rest.length := Nat.sub_le_of_le_add hit.length_le
      have noSep : ∀ d ∈ tail.head?, style.isSep d = false :=
        fun d begins => marks.break_not_sep (stop d begins)
      have noRest : ∀ d ∈ tail.head?, (!style.isBreak d) = false :=
        fun d begins => by rw [stop d begins]; rfl
      have cleared : ((rest.drop (key.length - 1)).dropWhile style.isSep).dropWhile
          (fun d => !style.isBreak d) = [] := by
        refine dropWhile_eq_nil_iff.mpr fun d inside => ?_
        have within := mem_of_mem_drop ((dropWhile_suffix _).subset inside)
        rw [later d within]
        rfl
      rw [if_pos whole, if_pos hit]
      simp only [drop_append_of_le_length short, takeWhile_append_stop noSep,
        dropWhile_append_stop noSep, dropWhile_append_stop noRest, cleared, nil_append]
    · have misses : ¬ key <+: c :: (rest ++ tail) := by
        intro fits
        rw [← cons_append] at fits
        refine hit (prefix_of_prefix_append fits fun d begins inside => ?_)
        have broken := stop d begins
        rw [marks.key_noBreak isKey d inside] at broken
        cases broken
      rw [if_neg misses, if_neg hit, ih later, cons_append]

theorem maskText_last (isKey : key ∈ keys) (unbroken : NoBreak style line) :
    maskText style key line = maskLine style key line := by
  have stop : ∀ c ∈ ([] : List α).head?, style.isBreak c = true :=
    fun c begins => absurd begins (Option.not_mem_none c)
  have whole := marks.maskText_line isKey unbroken stop
  rw [append_nil, maskText, append_nil] at whole
  exact whole

theorem maskText_break (isKey : key ∈ keys) (breaks : style.isBreak c = true) :
    maskText style key (c :: rest) = c :: maskText style key rest := by
  have misses : ¬ key <+: c :: rest := by
    obtain ⟨d, tail, rfl, -, unbroken, -⟩ := marks.key key isKey
    intro fits
    obtain ⟨rfl, -⟩ := cons_prefix_cons.mp fits
    rw [breaks] at unbroken
    cases unbroken
  rw [maskText, if_neg misses]

variable (passes : List (List α))

theorem maskAll_last (known : passes ⊆ keys) (unbroken : NoBreak style line) :
    maskAll style passes line = maskLineAll style passes line := by
  induction passes generalizing line with
  | nil => rfl
  | cons pass passes ih =>
    obtain ⟨isPass, later⟩ := cons_subset.mp known
    rw [maskAll, foldl_cons, marks.maskText_last isPass unbroken]
    exact ih later (marks.maskLine_noBreak isPass unbroken)

theorem maskAll_next (known : passes ⊆ keys) (unbroken : NoBreak style line)
    (breaks : style.isBreak c = true) :
    maskAll style passes (line ++ c :: rest) =
      maskLineAll style passes line ++ c :: maskAll style passes rest := by
  induction passes generalizing line rest with
  | nil => rfl
  | cons pass passes ih =>
    obtain ⟨isPass, later⟩ := cons_subset.mp known
    have stop : ∀ d ∈ (c :: rest).head?, style.isBreak d = true := by
      intro d begins
      obtain rfl : c = d := Option.some.inj begins
      exact breaks
    rw [maskAll, foldl_cons, marks.maskText_line isPass unbroken stop,
      marks.maskText_break isPass breaks]
    exact ih later (marks.maskLine_noBreak isPass unbroken)

theorem maskLineAll_noBreak (known : passes ⊆ keys) (unbroken : NoBreak style line) :
    NoBreak style (maskLineAll style passes line) := by
  induction passes generalizing line with
  | nil => exact unbroken
  | cons pass passes ih =>
    obtain ⟨isPass, later⟩ := cons_subset.mp known
    exact ih later (marks.maskLine_noBreak isPass unbroken)

theorem maskLineAll_sameLine (same : SameLine style keys one two) :
    maskLineAll style keys one = maskLineAll style keys two := by
  cases same with
  | same => rfl
  | secret front key seps one two isKey sep first second =>
    exact marks.maskLineAll_secret front isKey sep keys (List.Subset.refl keys) isKey first second

theorem maskAll_sameText (same : SameText style keys one two) :
    maskAll style keys one = maskAll style keys two := by
  have known := List.Subset.refl keys
  induction same with
  | last lines first second =>
    rw [marks.maskAll_last keys known first, marks.maskAll_last keys known second,
      marks.maskLineAll_sameLine lines]
  | next lines first second breaks rest ih =>
    rw [marks.maskAll_next keys known first breaks, marks.maskAll_next keys known second breaks,
      marks.maskLineAll_sameLine lines, ih]

theorem maskAll_idem (text : List α) :
    maskAll style keys (maskAll style keys text) = maskAll style keys text := by
  have known := List.Subset.refl keys
  induction text using lines_induction style with
  | last line unbroken =>
    rw [marks.maskAll_last keys known unbroken,
      marks.maskAll_last keys known (marks.maskLineAll_noBreak keys known unbroken),
      marks.maskLineAll_idem keys known]
  | next line c rest unbroken breaks ih =>
    rw [marks.maskAll_next keys known unbroken breaks,
      marks.maskAll_next keys known (marks.maskLineAll_noBreak keys known unbroken) breaks,
      marks.maskLineAll_idem keys known, ih]

end Marks

end Text

end Scshr.Lib.Masking
