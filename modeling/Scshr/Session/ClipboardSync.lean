import Mathlib.Data.List.DropRight
import Scshr.Lib.Decimal
import Scshr.Protocol.ClipboardTransfer

/-! The two clipboards (`Session::handle_clipboard_send` and `clipboard_thread`).  A poll
sends what it finds unless it saw that text at the poll before or it is the text last
received. -/
namespace Scshr.Session

open Common Protocol List
open Lib.Decimal (isSpace)

/-- A carriage return in front of a line feed is left out. -/
def dropCr : Bytes → Bytes
  | [] => []
  | byte :: rest =>
    if byte = 0x0d ∧ rest.head? = some 0x0a then dropCr rest else byte :: dropCr rest

def norm (text : Bytes) : Bytes := (dropCr text).rdropWhile isSpace

/-- The local clipboard, what the session remembers of it, and the text the Mac has, as far
as the session has received it or sent it. -/
structure Clipboards where
  clipboard : Option Bytes
  lastReceived : Bytes
  lastSeen : Bytes
  mac : Option Bytes
  deriving DecidableEq

namespace Clipboards

def start (initial : Option Bytes) : Clipboards := ⟨initial, [], norm (initial.getD []), none⟩

def receive (s : Clipboards) (text : Bytes) : Clipboards :=
  { s with clipboard := some text, lastReceived := text, mac := some (norm text) }

def handleClipboardSend (inflateSyncFlush : Bytes → Option Bytes) (s : Clipboards)
    (full : Bytes) : Clipboards :=
  match clipboardText inflateSyncFlush full with
  | none => s
  | some text => s.receive text

def copy (s : Clipboards) (text : Bytes) : Clipboards := { s with clipboard := some text }

/-- One round of the loop in `clipboard_thread`.  The text goes through `cut_text`, which
sends every text but the empty one. -/
def poll (s : Clipboards) : Clipboards :=
  match s.clipboard with
  | none => s
  | some cur =>
    let c := norm cur
    if c = [] ∨ c = s.lastSeen then s
    else if c = norm s.lastReceived then { s with lastSeen := c }
    else { s with lastSeen := c, mac := some c }

end Clipboards

inductive ClipboardEvent where
  | receive (text : Bytes)
  | copy (text : Bytes)
  | poll
  deriving DecidableEq

namespace Clipboards

def step (s : Clipboards) : ClipboardEvent → Clipboards
  | .receive text => s.receive text
  | .copy text => s.copy text
  | .poll => s.poll

def run (initial : Option Bytes) (events : List ClipboardEvent) : Clipboards :=
  events.foldl step (start initial)

/-- A local text that is not blank and not the one the session started with is the text the
Mac has. -/
def Converged (initial : Option Bytes) (s : Clipboards) : Prop :=
  ∀ text, s.clipboard = some text → norm text ≠ [] → norm text ≠ norm (initial.getD []) →
    s.mac = some (norm text)

instance (initial : Option Bytes) (s : Clipboards) : Decidable (Converged initial s) :=
  match h : s.clipboard with
  | none => isTrue fun text found => by rw [h] at found; cases found
  | some text =>
    decidable_of_iff (norm text ≠ [] → norm text ≠ norm (initial.getD []) →
      s.mac = some (norm text))
      ⟨fun agree other found => by rw [h] at found; cases found; exact agree,
        fun agree => agree text h⟩

/-- What a copy needs for the Mac to have it after the next poll: the text is blank, the
initial one, one the Mac has already, or neither the text of the last poll nor the text last
received. -/
def Reaches (initial : Option Bytes) (s : Clipboards) (text : Bytes) : Prop :=
  norm text = [] ∨ norm text = norm (initial.getD []) ∨ s.mac = some (norm text) ∨
    (norm text ≠ s.lastSeen ∧ norm text ≠ norm s.lastReceived)

variable (initial : Option Bytes)

theorem poll_eq (s : Clipboards) (found : s.clipboard = some cur) :
    s.poll =
      if norm cur = [] ∨ norm cur = s.lastSeen then s
      else if norm cur = norm s.lastReceived then { s with lastSeen := norm cur }
      else { s with lastSeen := norm cur, mac := some (norm cur) } := by
  unfold poll
  rw [found]

theorem poll_clipboard (s : Clipboards) : s.poll.clipboard = s.clipboard := by
  cases found : s.clipboard with
  | none =>
    unfold poll
    rw [found]
    exact found
  | some cur =>
    rw [poll_eq s found]
    split
    · exact found
    · split <;> exact found

theorem poll_mac (s : Clipboards) (found : s.clipboard = some cur) :
    s.poll.mac =
      if norm cur = [] ∨ norm cur = s.lastSeen ∨ norm cur = norm s.lastReceived then s.mac
      else some (norm cur) := by
  rw [poll_eq s found]
  by_cases blank : norm cur = []
  · rw [if_pos (.inl blank), if_pos (.inl blank)]
  · by_cases seen : norm cur = s.lastSeen
    · rw [if_pos (.inr seen), if_pos (.inr (.inl seen))]
    · by_cases echo : norm cur = norm s.lastReceived
      · rw [if_neg (by tauto), if_pos echo, if_pos (.inr (.inr echo))]
      · rw [if_neg (by tauto), if_neg echo, if_neg (by tauto)]

theorem poll_poll (s : Clipboards) : s.poll.poll = s.poll := by
  cases found : s.clipboard with
  | none =>
    have kept : s.poll = s := by
      unfold poll
      rw [found]
    rw [kept, kept]
  | some cur =>
    by_cases seen : norm cur = [] ∨ norm cur = s.lastSeen
    · have kept : s.poll = s := (poll_eq s found).trans (if_pos seen)
      rw [kept, kept]
    · have last : s.poll.lastSeen = norm cur := by
        rw [poll_eq s found, if_neg seen]
        split <;> rfl
      rw [poll_eq s.poll ((poll_clipboard s).trans found), if_pos (.inr last.symm)]

theorem foldl_polls (s : Clipboards) (k : Nat) :
    (List.replicate (k + 1) ClipboardEvent.poll).foldl step s = s.poll := by
  induction k with
  | zero => rfl
  | succ k ih =>
    rw [replicate_succ', foldl_append, ih]
    exact poll_poll s

theorem run_change (front : List ClipboardEvent) (change : ClipboardEvent) (k : Nat) :
    run initial (front ++ change :: List.replicate (k + 1) .poll) =
      ((run initial front).step change).poll := by
  unfold run
  rw [foldl_append, foldl_cons, foldl_polls]

theorem converged_iff (s : Clipboards) (found : s.clipboard = some text) :
    Converged initial s.poll ↔
      norm text = [] ∨ norm text = norm (initial.getD []) ∨ s.poll.mac = some (norm text) := by
  unfold Converged
  rw [poll_clipboard, found]
  constructor
  · intro agree
    by_cases blank : norm text = []
    · exact .inl blank
    · by_cases first : norm text = norm (initial.getD [])
      · exact .inr (.inl first)
      · exact .inr (.inr (agree text rfl blank first))
  · rintro agree other same blank first
    cases same
    exact (agree.resolve_left blank).resolve_left first

theorem converged_receive (s : Clipboards) (text : Bytes) :
    Converged initial (s.receive text).poll := by
  have found : (s.receive text).clipboard = some text := rfl
  refine (converged_iff initial _ found).mpr (.inr (.inr ?_))
  rw [poll_mac _ found]
  exact if_pos (.inr (.inr rfl))

theorem converged_copy_iff (s : Clipboards) (text : Bytes) :
    Converged initial (s.copy text).poll ↔ s.Reaches initial text := by
  have found : (s.copy text).clipboard = some text := rfl
  rw [converged_iff initial _ found, poll_mac _ found]
  unfold Reaches
  show _ ∨ _ ∨ (if norm text = [] ∨ norm text = s.lastSeen ∨ norm text = norm s.lastReceived
    then s.mac else some (norm text)) = some (norm text) ↔ _
  split <;> tauto

theorem converged_polls (k : Nat) : Converged initial (run initial (List.replicate k .poll)) := by
  have kept : (run initial (List.replicate k .poll)).clipboard = initial := by
    unfold run
    induction k with
    | zero => rfl
    | succ k ih =>
      rw [replicate_succ', foldl_append]
      exact (poll_clipboard _).trans ih
  intro text found _ other
  rw [kept] at found
  rw [found] at other
  exact absurd rfl other

/-- Every run that ends with a poll after its last change has one of three forms.  With no
change the clipboard is the initial one; after a text from the Mac the two agree; after a
copy they agree exactly when the copy reaches the Mac. -/
theorem clipboards_converge_iff (initial : Option Bytes) (front : List ClipboardEvent)
    (text : Bytes) (k : Nat) :
    Converged initial (run initial (List.replicate (k + 1) .poll)) ∧
    Converged initial (run initial (front ++ .receive text :: List.replicate (k + 1) .poll)) ∧
    (Converged initial (run initial (front ++ .copy text :: List.replicate (k + 1) .poll)) ↔
      (run initial front).Reaches initial text) := by
  rw [run_change, run_change]
  exact ⟨converged_polls initial (k + 1), converged_receive initial _ text,
    converged_copy_iff initial _ text⟩

/-- `B` comes from the Mac, the user copies `A`, which is sent, and then `B` again, which is
not: the Mac keeps `A`. -/
theorem recopied_text_not_sent :
    let s := run none [.receive [0x42], .poll, .copy [0x41], .poll, .copy [0x42], .poll]
    ¬ Converged none s ∧ s.clipboard = some [0x42] ∧ s.mac = some [0x41] := by
  decide

end Clipboards

end Scshr.Session
