import Scshr.Lib.Loop
import Scshr.Lib.Masking
import Scshr.Tunnel.Pairing

/-! Redaction of the tunnel's key material in texts that are logged or shown.  A loop for each
key name searches the text, overwrites what stands behind the name and its separators up to the
end of the line, and searches on behind what it wrote.  The loops come to an end, and what they
leave does not depend on the secrets. -/
namespace Scshr.Tunnel

open Common Lib Lib.Masking
open List hiding tail

/-- A name to search for: an empty one would be found again and again. -/
structure KeyName where
  text : Bytes
  nonempty : text ≠ []

def kKeys : List KeyName :=
  [⟨ascii "PrivateKey", by decide⟩, ⟨ascii "private_key", by decide⟩,
    ⟨ascii "PresharedKey", by decide⟩, ⟨ascii "preshared_key", by decide⟩]

/-- Blank, equals sign and tab stand between a name and its value, and the value ends with the
line. -/
def secretStyle : Style UInt8 where
  isSep c := c == 32 || c == 61 || c == 9
  isBreak c := c == 10 || c == 13
  mask := ascii "<redacted>"

/-- `std::string::find` from a position on. -/
def find (key text : Bytes) (p : Nat) : Option Nat := (search key (text.drop p)).map (p + ·)

def valueStart (key : KeyName) (out : Bytes) (p : Nat) : Nat :=
  p + key.text.length + ((out.drop (p + key.text.length)).takeWhile secretStyle.isSep).length

def valueEnd (out : Bytes) (v : Nat) : Nat :=
  v + ((out.drop v).takeWhile fun c => !secretStyle.isBreak c).length

/-- One turn of the loop for a name, or nothing where the search fails. -/
def redactNext (key : KeyName) (out : Bytes) (p : Nat) : Option (Bytes × Nat) :=
  (find key.text out p).map fun p =>
    let v := valueStart key out p
    let e := valueEnd out v
    (out.take v ++ ascii "<redacted>" ++ out.drop e, v + 10)

def redactStep (key : KeyName) (state : Bytes × Nat) : Iteration (Bytes × Nat) Bytes :=
  match redactNext key state.1 state.2 with
  | none => .done state.1
  | some state' => .next state'

variable {key : KeyName} {head seps value rest out out' : Bytes} {p p' : Nat}

theorem valueStart_eq (behind : head.length = p + key.text.length)
    (sep : ∀ c ∈ seps, secretStyle.isSep c = true)
    (stop : ∀ c ∈ tail.head?, secretStyle.isSep c = false) :
    valueStart key (head ++ (seps ++ tail)) p = (head ++ seps).length := by
  rw [valueStart, ← behind, drop_left, takeWhile_eq_front sep stop, length_append]

theorem valueEnd_eq (unbroken : NoBreak secretStyle value)
    (stop : ∀ c ∈ rest.head?, secretStyle.isBreak c = true) :
    valueEnd (head ++ (value ++ rest)) head.length = (head ++ value).length := by
  have inside : ∀ c ∈ value, (!secretStyle.isBreak c) = true :=
    fun c within => by rw [unbroken c within]; rfl
  have ends : ∀ c ∈ rest.head?, (!secretStyle.isBreak c) = false :=
    fun c begins => by rw [stop c begins]; rfl
  rw [valueEnd, drop_left, takeWhile_eq_front inside ends, length_append]

theorem redactNext_hit (sep : ∀ c ∈ seps, secretStyle.isSep c = true)
    (stop : ∀ c ∈ (value ++ rest).head?, secretStyle.isSep c = false)
    (unbroken : NoBreak secretStyle value) (ends : ∀ c ∈ rest.head?, secretStyle.isBreak c = true)
    (hit : find key.text (front ++ (key.text ++ (seps ++ (value ++ rest)))) p = some front.length) :
    redactNext key (front ++ (key.text ++ (seps ++ (value ++ rest)))) p =
      some (front ++ key.text ++ seps ++ secretStyle.mask ++ rest,
        (front ++ key.text ++ seps ++ secretStyle.mask).length) := by
  rw [redactNext, hit, ← append_assoc front]
  have behind : (front ++ key.text).length = front.length + key.text.length := length_append
  simp only [Option.map_some, valueStart_eq behind sep stop]
  rw [← append_assoc _ seps, valueEnd_eq unbroken ends, take_left,
    ← append_assoc _ value, drop_left]
  simp only [length_append]
  rfl

theorem redactNext_cases (key : KeyName) (front text : Bytes) :
    (redactNext key (front ++ text) front.length = none ∧
        maskText secretStyle key.text text = text) ∨
      ∃ front' rest, redactNext key (front ++ text) front.length =
          some (front' ++ rest, front'.length) ∧ rest.length < text.length ∧
        front ++ maskText secretStyle key.text text =
          front' ++ maskText secretStyle key.text rest := by
  have searched : find key.text (front ++ text) front.length =
      (search key.text text).map (front.length + ·) := by
    rw [find, drop_left]
  cases hit : search key.text text with
  | none =>
    left
    rw [redactNext, searched, hit]
    exact ⟨rfl, search_none hit⟩
  | some found =>
    right
    rw [hit, Option.map_some] at searched
    obtain ⟨gap, after, rfl, rfl, masked⟩ := search_some secretStyle hit
    obtain ⟨seps, value, rest, rfl, sep, stop, unbroken, ends, written⟩ :=
      maskText_hit secretStyle key.nonempty after
    rw [← append_assoc front gap] at searched ⊢
    rw [← length_append] at searched
    refine ⟨front ++ gap ++ key.text ++ seps ++ secretStyle.mask, rest,
      redactNext_hit sep stop unbroken ends searched, ?_, ?_⟩
    · have keyLength : 0 < key.text.length := length_pos_iff.mpr key.nonempty
      simp only [length_append]
      omega
    · rw [masked, written]
      simp only [append_assoc]

theorem redactNext_shorter (next : redactNext key out p = some (out', p')) :
    out'.length - p' < out.length - p := by
  by_cases inside : p ≤ out.length
  · have front : (out.take p).length = p := length_take_of_le inside
    have turn := redactNext_cases key (out.take p) (out.drop p)
    rw [take_append_drop, front, next] at turn
    rcases turn with ⟨none, -⟩ | ⟨front', rest, same, shorter, -⟩
    · cases none
    · obtain ⟨rfl, rfl⟩ := Prod.mk.inj (Option.some.inj same)
      rw [length_drop] at shorter
      rw [length_append, Nat.add_sub_cancel_left]
      exact shorter
  · rw [redactNext, find, drop_eq_nil_of_le (Nat.le_of_not_le inside)] at next
    cases next

def redactLoop (key : KeyName) (out : Bytes) (p : Nat) : Bytes :=
  match _ : redactNext key out p with
  | none => out
  | some (out', p') => redactLoop key out' p'
termination_by out.length - p
decreasing_by exact redactNext_shorter (by assumption)

def redactSecrets (text : Bytes) : Bytes :=
  kKeys.foldl (fun out key => redactLoop key out 0) text

theorem redactLoop_done (last : redactNext key out p = none) : redactLoop key out p = out := by
  rw [redactLoop]
  split
  case h_1 => rfl
  case h_2 out' p' next => rw [last] at next; cases next

theorem redactLoop_next (next : redactNext key out p = some (out', p')) :
    redactLoop key out p = redactLoop key out' p' := by
  rw [redactLoop]
  split
  case h_1 last => rw [next] at last; cases last
  case h_2 out'' p'' same =>
    rw [next] at same
    obtain ⟨rfl, rfl⟩ := Prod.mk.inj (Option.some.inj same)
    rfl

theorem redactLoop_returns (key : KeyName) (out : Bytes) (p : Nat) :
    Returns (redactStep key) (out, p) (redactLoop key out p) := by
  induction out, p using redactLoop.induct key with
  | case1 out p last =>
    apply Returns.done
    rw [redactLoop_done last, redactStep, last]
  | case2 out p out' p' next ih =>
    rw [redactLoop_next next]
    apply Returns.next _ ih
    rw [redactStep, next]

theorem redactLoop_eq (key : KeyName) (front text : Bytes) :
    redactLoop key (front ++ text) front.length =
      front ++ maskText secretStyle key.text text := by
  induction size : text.length using Nat.strongRecOn generalizing front text with
  | ind size ih =>
    rcases redactNext_cases key front text with ⟨last, same⟩ | ⟨front', rest, next, shorter, same⟩
    · rw [redactLoop_done last, same]
    · rw [redactLoop_next next, same, ih rest.length (size ▸ shorter) front' rest rfl]

theorem redactSecrets_eq (text : Bytes) :
    redactSecrets text = maskAll secretStyle (kKeys.map KeyName.text) text := by
  rw [redactSecrets, maskAll, foldl_map]
  congr
  funext out key
  exact redactLoop_eq key [] out

theorem kKeys_marks :
    Marks secretStyle (fun c => c == 80 || c == 112) (kKeys.map KeyName.text) := by
  have plain {text : Bytes}
      (all : text.all (fun c => !(c == 80 || c == 112) && !secretStyle.isBreak c) = true) :
      ∀ c ∈ text, (c == 80 || c == 112) = false ∧ secretStyle.isBreak c = false := by
    intro c inside
    have both := all_eq_true.mp all c inside
    rw [Bool.and_eq_true, Bool.not_eq_true', Bool.not_eq_true'] at both
    exact both
  refine ⟨?_, plain (by decide +kernel), ?_, ?_, by decide +kernel⟩
  · intro c sep
    simp only [secretStyle, Bool.or_eq_true, beq_iff_eq] at sep
    rcases sep with (rfl | rfl) | rfl <;> decide
  · intro c begins
    obtain rfl : 60 = c := Option.some.inj begins
    rfl
  · simp only [kKeys, map_cons, map_nil, forall_mem_cons]
    refine ⟨⟨80, ascii "rivateKey", ?_⟩, ⟨112, ascii "rivate_key", ?_⟩,
      ⟨80, ascii "resharedKey", ?_⟩, ⟨112, ascii "reshared_key", ?_⟩,
      fun key absent => absurd absent not_mem_nil⟩
    all_goals exact ⟨by decide +kernel, rfl, rfl, plain (by decide +kernel)⟩

/-- The loops for the names one after the other, each from the start of what the last one
left. -/
def Runs : List KeyName → Bytes → Bytes → Prop
  | [], text, out => out = text
  | key :: keys, text, out => ∃ mid, Returns (redactStep key) (text, 0) mid ∧ Runs keys mid out

theorem runs_foldl (keys : List KeyName) (text : Bytes) :
    Runs keys text (keys.foldl (fun out key => redactLoop key out 0) text) := by
  induction keys generalizing text with
  | nil => rfl
  | cons key keys ih => exact ⟨redactLoop key text 0, redactLoop_returns key text 0, ih _⟩

/-- Texts that differ in what stands behind names and separators only are redacted to the same
text; redacting again changes nothing; and on every text the loops come to their end. -/
theorem redactSecrets_hides :
    (∀ one two, SameText secretStyle (kKeys.map KeyName.text) one two →
      redactSecrets one = redactSecrets two) ∧
    ∀ text, redactSecrets (redactSecrets text) = redactSecrets text ∧
      Runs kKeys text (redactSecrets text) := by
  refine ⟨?_, fun text => ⟨?_, runs_foldl kKeys text⟩⟩
  · intro one two same
    rw [redactSecrets_eq, redactSecrets_eq]
    exact kKeys_marks.maskAll_sameText same
  · rw [redactSecrets_eq, redactSecrets_eq]
    exact kKeys_marks.maskAll_idem text

theorem noBreak_of_all (all : line.all (fun c => !secretStyle.isBreak c) = true) :
    NoBreak secretStyle line := by
  intro c inside
  have plain := all_eq_true.mp all c inside
  rw [Bool.not_eq_true'] at plain
  exact plain

/-- A configuration's key line, with two different keys. -/
theorem redactSecrets_hides_conf :
    SameText secretStyle (kKeys.map KeyName.text)
        (ascii "PrivateKey = aGVsbG8=\nMTU = 1420") (ascii "PrivateKey = d29ybGQ=\nMTU = 1420") ∧
      redactSecrets (ascii "PrivateKey = aGVsbG8=\nMTU = 1420") =
        redactSecrets (ascii "PrivateKey = d29ybGQ=\nMTU = 1420") := by
  have one : ascii "PrivateKey = aGVsbG8=\nMTU = 1420" =
      [] ++ (ascii "PrivateKey" ++ (ascii " = " ++ ascii "aGVsbG8=")) ++
        10 :: ascii "MTU = 1420" := by decide +kernel
  have two : ascii "PrivateKey = d29ybGQ=\nMTU = 1420" =
      [] ++ (ascii "PrivateKey" ++ (ascii " = " ++ ascii "d29ybGQ=")) ++
        10 :: ascii "MTU = 1420" := by decide +kernel
  have sep : ∀ c ∈ ascii " = ", secretStyle.isSep c = true :=
    all_eq_true.mp (by decide +kernel)
  have first : ∀ c ∈ (ascii "aGVsbG8=").head?, secretStyle.isSep c = false := by
    intro c begins
    obtain rfl : 97 = c := Option.some.inj begins
    rfl
  have second : ∀ c ∈ (ascii "d29ybGQ=").head?, secretStyle.isSep c = false := by
    intro c begins
    obtain rfl : 100 = c := Option.some.inj begins
    rfl
  have mtu : NoBreak secretStyle (ascii "MTU = 1420") := noBreak_of_all (by decide +kernel)
  have same : SameText secretStyle (kKeys.map KeyName.text)
      (ascii "PrivateKey = aGVsbG8=\nMTU = 1420") (ascii "PrivateKey = d29ybGQ=\nMTU = 1420") := by
    rw [one, two]
    exact .next (.secret _ _ _ _ _ mem_cons_self sep first second)
      (noBreak_of_all (by decide +kernel)) (noBreak_of_all (by decide +kernel)) (by decide)
      (.last (.same _) mtu mtu)
  exact ⟨same, redactSecrets_hides.1 _ _ same⟩

end Scshr.Tunnel
