import Scshr.Common.Bytes

/-! The quoting of remote commands (`sh_quote` of `app/setup.cpp`) against the token recognition
of a POSIX shell: blanks, operators, comments and the three ways to quote.  Expansions come
after it. -/
namespace Scshr.App.ShellQuote

open Scshr.Common List

inductive Quote where
  | unquoted
  | escape
  | single
  | double
  | doubleEscape
  | comment
  deriving DecidableEq

inductive Token where
  | word (value : Bytes)
  | operator (c : UInt8)
  deriving DecidableEq

/-- The word that is being read, its quotes removed, and how it is quoted. -/
structure LexState where
  quote : Quote := .unquoted
  word : Option Bytes := none
  deriving DecidableEq

def singleQuote : UInt8 := 39

def doubleQuote : UInt8 := 34

def backslash : UInt8 := 92

/-- `|`, `&`, `;`, `<`, `>`, `(`, `)` and the end of the line. -/
def isOperator (c : UInt8) : Bool := c ∈ [124, 38, 59, 60, 62, 40, 41, newline]

namespace LexState

def enter (s : LexState) (quote : Quote) : LexState := ⟨quote, some (s.word.getD [])⟩

def add (s : LexState) (quote : Quote) (text : Bytes) : LexState :=
  ⟨quote, some (s.word.getD [] ++ text)⟩

def finished (s : LexState) : List Token := (s.word.map Token.word).toList

def step (s : LexState) (c : UInt8) : List Token × LexState :=
  match s.quote with
  | .unquoted =>
    if c = 32 ∨ c = 9 then (s.finished, {})
    else if isOperator c then (s.finished ++ [.operator c], {})
    else if c = backslash then ([], s.enter .escape)
    else if c = singleQuote then ([], s.enter .single)
    else if c = doubleQuote then ([], s.enter .double)
    else if c = 35 ∧ s.word = none then ([], { quote := .comment })
    else ([], s.add .unquoted [c])
  | .escape => ([], if c = newline then s.enter .unquoted else s.add .unquoted [c])
  | .single => ([], if c = singleQuote then s.enter .unquoted else s.add .single [c])
  | .double =>
    ([], if c = doubleQuote then s.enter .unquoted
      else if c = backslash then s.enter .doubleEscape else s.add .double [c])
  | .doubleEscape =>
    -- the backslash stays in front of what it does not escape here
    ([], if c = newline then s.enter .double
      else if c ∈ [36, 96, doubleQuote, backslash] then s.add .double [c]
      else s.add .double [backslash, c])
  | .comment => if c = newline then ([.operator c], {}) else ([], s)

def lex (s : LexState) : Bytes → List Token × LexState
  | [] => ([], s)
  | c :: rest => ((s.step c).1 ++ ((s.step c).2.lex rest).1, ((s.step c).2.lex rest).2)

end LexState

/-- The tokens of a command line; `none` where a quote is left open. -/
def tokenise (line : Bytes) : Option (List Token) :=
  let (tokens, last) := LexState.lex {} line
  if last.quote = .unquoted ∨ last.quote = .comment then some (tokens ++ last.finished) else none

def quoteByte (c : UInt8) : Bytes :=
  if c = singleQuote then [singleQuote, backslash, singleQuote, singleQuote] else [c]

def shQuote (s : Bytes) : Bytes := [singleQuote] ++ s.flatMap quoteByte ++ [singleQuote]

/-- A spelling of one word, and the word. -/
structure ShellWord where
  text : Bytes
  value : Bytes
  reads : LexState.lex {} text = ([], { word := some value })

def commandLine (words : List Bytes) : Bytes := [32].intercalate words

namespace LexState

theorem lex_append (s : LexState) (front back : Bytes) :
    s.lex (front ++ back) =
      ((s.lex front).1 ++ ((s.lex front).2.lex back).1, ((s.lex front).2.lex back).2) := by
  induction front generalizing s with
  | nil => rfl
  | cons c front ih => simp only [cons_append, lex, ih, append_assoc]

theorem lex_quoteByte (c : UInt8) (word : Bytes) :
    lex ⟨.single, some word⟩ (quoteByte c) = ([], ⟨.single, some (word ++ [c])⟩) := by
  by_cases quote : c = singleQuote
  · rw [quoteByte, if_pos quote, quote]
    rfl
  · have step : step ⟨.single, some word⟩ c = ([], ⟨.single, some (word ++ [c])⟩) :=
      congrArg (Prod.mk []) (if_neg quote)
    rw [quoteByte, if_neg quote, lex, step, lex, append_nil]

theorem lex_flatMap_quoteByte (s word : Bytes) :
    lex ⟨.single, some word⟩ (s.flatMap quoteByte) = ([], ⟨.single, some (word ++ s)⟩) := by
  induction s generalizing word with
  | nil => rw [flatMap_nil, append_nil, lex]
  | cons c s ih =>
    rw [flatMap_cons, lex_append, lex_quoteByte, ih, append_assoc]
    rfl

theorem lex_shQuote (s : Bytes) : lex {} (shQuote s) = ([], { word := some s }) := by
  have opened : lex {} [singleQuote] = ([], ⟨.single, some []⟩) := rfl
  rw [shQuote, lex_append, lex_append, opened, lex_flatMap_quoteByte]
  rfl

theorem lex_commandLine (words : List ShellWord) (last : ShellWord) :
    lex {} (commandLine ((words ++ [last]).map ShellWord.text)) =
      (words.map fun word => .word word.value, { word := some last.value }) := by
  induction words with
  | nil =>
    rw [nil_append, map_singleton, commandLine, intercalate_singleton]
    exact last.reads
  | cons word words ih =>
    have more : (words ++ [last]).map ShellWord.text ≠ [] := by simp
    obtain ⟨next, rest, eq⟩ := exists_cons_of_ne_nil more
    rw [commandLine, eq] at ih
    rw [cons_append, map_cons, eq, commandLine, intercalate_cons_cons,
      append_assoc, lex_append, word.reads, singleton_append, lex, nil_append]
    change (_ ++ (lex {} _).1, (lex {} _).2) = _
    rw [ih]
    rfl

end LexState

theorem tokenise_commandLine (words : List ShellWord) :
    tokenise (commandLine (words.map ShellWord.text)) =
      some (words.map fun word => .word word.value) := by
  rcases eq_nil_or_concat words with rfl | ⟨front, last, rfl⟩
  · rfl
  · rw [concat_eq_append, tokenise, LexState.lex_commandLine, map_append]
    rfl

/-- Whatever the string is, it comes out of the command line as one word, and the words around it
come out as they would without it. -/
theorem shQuote_transparent (front back : List ShellWord) (s : Bytes) :
    tokenise (commandLine (front.map ShellWord.text ++ shQuote s :: back.map ShellWord.text)) =
      some ((front.map ShellWord.value ++ s :: back.map ShellWord.value).map Token.word) := by
  have all := tokenise_commandLine (front ++ ⟨shQuote s, s, LexState.lex_shQuote s⟩ :: back)
  rw [map_append, map_cons] at all
  rw [all]
  simp [Function.comp_def]

end Scshr.App.ShellQuote
