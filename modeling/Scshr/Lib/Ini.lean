import Mathlib.Data.List.TakeWhile
import Scshr.Lib.Decimal
import Scshr.Lib.TextLines

/-! Configuration texts in sections.  A line is read up to its comment sign and without the
white space around it; what is left is nothing, the header of a section in brackets, or an
entry, its key and its value apart at the first equals sign. -/
namespace Scshr.Lib.Ini

open List
open Decimal (isSpace)

abbrev Bytes := List UInt8

def isWordChar (c : UInt8) : Bool := 33 ≤ c && c ≤ 126 && c ≠ 35

structure Word (text : Bytes) : Prop where
  nonempty : text ≠ []
  chars : ∀ c ∈ text, isWordChar c = true

def trim (text : Bytes) : Bytes := Text.trim isSpace text

def statement (line : Bytes) : Bytes := trim (line.takeWhile (· ≠ 35))

structure Section where
  header : Bytes
  entries : List (Bytes × Bytes)
  deriving DecidableEq, Repr

def isHeader (line : Bytes) : Bool := line.head? = some 91 && line.getLast? = some 93

def splitEntry (line : Bytes) : Option (Bytes × Bytes) :=
  if 61 ∈ line then
    some (trim (line.takeWhile (· ≠ 61)), trim ((line.dropWhile (· ≠ 61)).drop 1))
  else none

def readStatements : List Bytes → Option (List (Bytes × Bytes) × List Section)
  | [] => some ([], [])
  | line :: rest =>
    (readStatements rest).bind fun found =>
      if isHeader line then some ([], ⟨line, found.1⟩ :: found.2)
      else (splitEntry line).map fun entry => (entry :: found.1, found.2)

/-- The sections of a text; an entry outside a section is refused. -/
def read (text : Bytes) : Option (List Section) :=
  (readStatements (((Text.lines 10 text).map statement).filter (· ≠ []))).bind
    fun found => if found.1 = [] then some found.2 else none

/-! ## Texts as they are written -/

inductive Line where
  | comment (text : Bytes)
  | blank
  | header (text : Bytes)
  | entry (key value : Bytes)

namespace Line

def text : Line → Bytes
  | comment text => 35 :: text
  | blank => []
  | header text => text
  | entry key value => key ++ [32, 61, 32] ++ value

def Proper : Line → Prop
  | comment text => 10 ∉ text
  | blank => True
  | header text => Word text ∧ isHeader text = true
  | entry key value => Word key ∧ 61 ∉ key ∧ key.head? ≠ some 91 ∧ Word value

end Line

def collect : List Line → List (Bytes × Bytes) × List Section
  | [] => ([], [])
  | .comment _ :: rest | .blank :: rest => collect rest
  | .header text :: rest => ([], ⟨text, (collect rest).1⟩ :: (collect rest).2)
  | .entry key value :: rest => ((key, value) :: (collect rest).1, (collect rest).2)

/-! ## Characters -/

variable {c : UInt8} {text line : Bytes}

theorem not_isSpace_of_isWordChar (visible : isWordChar c = true) : isSpace c = false := by
  unfold isWordChar at visible
  unfold isSpace
  simp only [Bool.and_eq_true, decide_eq_true_eq, UInt8.le_iff_toNat_le] at visible
  simp only [Bool.or_eq_false_iff, Bool.and_eq_false_iff, decide_eq_false_iff_not,
    UInt8.le_iff_toNat_le, ← UInt8.toNat_inj, UInt8.reduceToNat] at visible ⊢
  omega

theorem Word.notMem (word : Word text) (other : isWordChar c = false) : c ∉ text := by
  intro inside
  rw [word.chars c inside] at other
  cases other

namespace Word

theorem front (word : Word text) : ∀ c ∈ text.head?, isSpace c = false :=
  fun c first => not_isSpace_of_isWordChar (word.chars c (mem_of_mem_head? first))

theorem back (word : Word text) : ∀ c ∈ text.getLast?, isSpace c = false :=
  fun c last => not_isSpace_of_isWordChar (word.chars c (mem_of_mem_getLast? last))

theorem trim_self (word : Word text) : trim text = text :=
  Text.trim_eq_self word.front word.back

theorem trim_cons (word : Word text) : trim (32 :: text) = text := by
  have blank : trim (32 :: text) = trim text := Text.trim_cons rfl text
  rw [blank, word.trim_self]

theorem trim_concat (word : Word text) : trim (text ++ [32]) = text := by
  have blank : trim (text ++ [32]) = trim text := Text.trim_concat rfl text
  rw [blank, word.trim_self]

end Word

/-! ## Reading what was written -/

theorem statement_eq_self (uncommented : 35 ∉ line) (front : ∀ c ∈ line.head?, isSpace c = false)
    (back : ∀ c ∈ line.getLast?, isSpace c = false) : statement line = line := by
  have whole : line.takeWhile (· ≠ 35) = line := by
    apply takeWhile_eq_self_iff.mpr
    intro c inside
    exact decide_eq_true fun sign => uncommented (sign ▸ inside)
  rw [statement, whole, trim, Text.trim_eq_self front back]

theorem statement_word (word : Word line) : statement line = line :=
  statement_eq_self (word.notMem rfl) word.front word.back

theorem statement_comment (text : Bytes) : statement (35 :: text) = [] := rfl

section Entry

variable {key value : Bytes} (proper : (Line.entry key value).Proper)

include proper

theorem statement_entry :
    statement (Line.entry key value).text = (Line.entry key value).text := by
  obtain ⟨wordKey, -, -, wordValue⟩ := proper
  apply statement_eq_self
  · intro sign
    simp only [Line.text, mem_append] at sign
    rcases sign with (sign | sign) | sign
    · exact wordKey.notMem rfl sign
    · exact absurd sign (by decide)
    · exact wordValue.notMem rfl sign
  · rw [Line.text, append_assoc, List.head?_append_of_ne_nil _ wordKey.nonempty]
    exact wordKey.front
  · rw [Line.text, List.getLast?_append_of_ne_nil _ wordValue.nonempty]
    exact wordValue.back

theorem isHeader_entry : isHeader (Line.entry key value).text = false := by
  obtain ⟨wordKey, -, plain, -⟩ := proper
  rw [isHeader, Line.text, append_assoc, List.head?_append_of_ne_nil _ wordKey.nonempty,
    decide_eq_false plain, Bool.false_and]

theorem splitEntry_entry : splitEntry (Line.entry key value).text = some (key, value) := by
  obtain ⟨wordKey, noEquals, -, wordValue⟩ := proper
  have before : ∀ c ∈ key ++ [32], decide (c ≠ 61) = true := by
    intro c inside
    apply decide_eq_true
    rintro rfl
    rcases mem_append.mp inside with inKey | inBlank
    · exact noEquals inKey
    · exact absurd inBlank (by decide)
  have text : (Line.entry key value).text = (key ++ [32]) ++ 61 :: 32 :: value := by
    simp only [Line.text, append_assoc, cons_append, nil_append]
  have cut : ((key ++ [32]) ++ 61 :: 32 :: value).takeWhile (· ≠ 61) = key ++ [32] := by
    rw [takeWhile_append_of_pos before]
    exact append_nil _
  have rest : ((key ++ [32]) ++ 61 :: 32 :: value).dropWhile (· ≠ 61) = 61 :: 32 :: value := by
    rw [dropWhile_append_of_pos before]
    rfl
  have equals : 61 ∈ (key ++ [32]) ++ 61 :: 32 :: value := by simp
  rw [text, splitEntry, if_pos equals, cut, rest, wordKey.trim_concat]
  exact congrArg (fun value => some (key, value)) wordValue.trim_cons

end Entry

theorem newline_notMem_text {line : Line} (proper : line.Proper) : 10 ∉ line.text := by
  cases line with
  | comment text => exact not_mem_cons_of_ne_of_not_mem (by decide) proper
  | blank => exact not_mem_nil
  | header text => exact proper.1.notMem rfl
  | entry key value =>
    obtain ⟨wordKey, -, -, wordValue⟩ := proper
    intro inside
    simp only [Line.text, mem_append] at inside
    rcases inside with (inside | inside) | inside
    · exact wordKey.notMem rfl inside
    · exact absurd inside (by decide)
    · exact wordValue.notMem rfl inside

theorem filter_cons_nonempty (nonempty : line ≠ []) (rest : List Bytes) :
    (line :: rest).filter (· ≠ []) = line :: rest.filter (· ≠ []) :=
  filter_cons_of_pos (decide_eq_true nonempty)

theorem readStatements_lines (lines : List Line) (proper : ∀ line ∈ lines, line.Proper) :
    readStatements (((lines.map Line.text).map statement).filter (· ≠ [])) =
      some (collect lines) := by
  induction lines with
  | nil => rfl
  | cons line rest ih =>
    obtain ⟨first, later⟩ := forall_mem_cons.mp proper
    rw [map_cons, map_cons]
    cases line with
    | comment text =>
      rw [Line.text, statement_comment, filter_cons_of_neg (by decide), ih later]
      rfl
    | blank =>
      rw [Line.text, filter_cons_of_neg (by decide), ih later]
      rfl
    | header text =>
      rw [Line.text, statement_word first.1, filter_cons_nonempty first.1.nonempty,
        readStatements, ih later, Option.bind_some, if_pos first.2]
      rfl
    | entry key value =>
      have nonempty : (Line.entry key value).text ≠ [] := by simp [Line.text]
      rw [statement_entry first, filter_cons_nonempty nonempty, readStatements, ih later,
        Option.bind_some, isHeader_entry first, splitEntry_entry first]
      rfl

theorem read_unlines (lines : List Line) (proper : ∀ line ∈ lines, line.Proper)
    (inside : (collect lines).1 = []) :
    read (Text.unlines 10 (lines.map Line.text)) = some (collect lines).2 := by
  have single : ∀ line ∈ lines.map Line.text, 10 ∉ line := by
    intro text mem
    obtain ⟨line, isLine, rfl⟩ := mem_map.mp mem
    exact newline_notMem_text (proper line isLine)
  rw [read, Text.lines_unlines single, readStatements_lines lines proper, Option.bind_some,
    if_pos inside]

end Scshr.Lib.Ini
