import Scshr.Mac.EndpointHost

/-! The texts that `parse_ipv6` and `valid_hostname` accept, as grammars.  Both are single passes
over the characters; the grammars say how the text is put together from groups and labels. -/
namespace Scshr.Tunnel

open Common Lib Lib.Decimal Mac
open List hiding count head tail
open List (append_assoc append_nil cons_append cons_ne_nil exists_cons_of_ne_nil forall_mem_cons
  forall_mem_nil length_cons length_map length_nil map_nil nil_append not_mem_nil)

/-! ## IPv6 addresses -/

structure HexGroup (text : Bytes) : Prop where
  nonempty : text ≠ []
  short : text.length ≤ 4
  digits : ∀ c ∈ text, isXDigit c = true

def groupValue (text : Bytes) : Nat := text.foldl (fun g c => g * 16 + hexValue c) 0

def colons (groups : List Bytes) : Bytes := [colon].intercalate groups

def HexGroups (groups : List Bytes) : Prop := ∀ group ∈ groups, HexGroup group

variable {group rest s bytes host : Bytes} {groups result : Ipv6Groups} {digits g left : Nat}
  {c : UInt8}

theorem not_isXDigit_colon : isXDigit colon = false := rfl

inductive Ipv6Text : Bytes → Bytes → Prop where
  | full (groups : List Bytes) (hex : HexGroups groups) (eight : groups.length = 8) :
      Ipv6Text (colons groups) ((groups.map groupValue).flatMap groupBytes)
  | gap (front back : List Bytes) (hexFront : HexGroups front) (hexBack : HexGroups back)
      (few : front.length + back.length ≤ 7) :
      Ipv6Text (colons front ++ colon :: colon :: colons back)
        ((front.map groupValue ++ replicate (8 - (front.length + back.length)) 0 ++
          back.map groupValue).flatMap groupBytes)

theorem colons_singleton (group : Bytes) : colons [group] = group := intercalate_singleton

theorem colons_cons (group : Bytes) {rest : List Bytes} (nonempty : rest ≠ []) :
    colons (group :: rest) = group ++ colon :: colons rest := by
  obtain ⟨next, rest, rfl⟩ := exists_cons_of_ne_nil nonempty
  rw [colons, intercalate_cons_cons, append_assoc]
  rfl

theorem HexGroups.head {groups : List Bytes} (hex : HexGroups groups) (nonempty : groups ≠ [])
    (more : Bytes) : ∃ c tail, colons groups ++ more = c :: tail ∧ c ≠ colon := by
  obtain ⟨group, rest, rfl⟩ := exists_cons_of_ne_nil nonempty
  have first := hex group mem_cons_self
  obtain ⟨c, tail, rfl⟩ := exists_cons_of_ne_nil first.nonempty
  have other : c ≠ colon := by
    rintro rfl
    exact absurd (first.digits colon mem_cons_self) (by decide)
  by_cases last : rest = []
  · exact ⟨c, tail ++ more, by rw [last, colons_singleton, cons_append], other⟩
  · exact ⟨c, _, by rw [colons_cons _ last, append_assoc, cons_append], other⟩

theorem HexGroups.colons_eq_nil {groups : List Bytes} (hex : HexGroups groups) :
    colons groups = [] ↔ groups = [] := by
  constructor
  · intro empty
    by_contra nonempty
    obtain ⟨c, tail, text, -⟩ := hex.head nonempty []
    rw [empty] at text
    cases text
  · rintro rfl
    rfl

theorem HexGroups.length_le {groups : List Bytes} (hex : HexGroups groups) :
    (colons groups).length ≤ 5 * groups.length := by
  induction groups with
  | nil => exact Nat.le_refl 0
  | cons group rest ih =>
    obtain ⟨first, others⟩ := forall_mem_cons.mp hex
    have short := first.short
    have rest_le := ih others
    by_cases last : rest = []
    · rw [last, colons_singleton, length_singleton]
      omega
    · rw [colons_cons _ last, length_append, length_cons, length_cons]
      omega

/-! ### One group -/

theorem hexRun_some (few : digits ≤ 4) (read : hexRun s digits g = some (count, value, rest)) :
    ∃ run, s = run ++ rest ∧ (∀ c ∈ run, isXDigit c = true) ∧ count = digits + run.length ∧
      count ≤ 4 ∧ value = run.foldl (fun g c => g * 16 + hexValue c) g := by
  fun_induction hexRun s digits g with
  | case1 c tail digits g hc many => cases read
  | case2 c tail digits g hc many ih =>
    obtain ⟨run, rfl, hex, total, le, sum⟩ := ih (by omega) read
    refine ⟨c :: run, rfl, forall_mem_cons.mpr ⟨hc, hex⟩, ?_, le, sum⟩
    rw [length_cons]
    omega
  | case3 c tail digits g hc =>
    cases read
    exact ⟨[], rfl, fun c mem => absurd mem not_mem_nil, rfl, few, rfl⟩
  | case4 digits g =>
    cases read
    exact ⟨[], rfl, fun c mem => absurd mem not_mem_nil, rfl, few, rfl⟩

theorem hexRun_append (hex : ∀ c ∈ run, isXDigit c = true) (le : digits + run.length ≤ 4)
    (stop : ∀ c ∈ rest.head?, isXDigit c = false) :
    hexRun (run ++ rest) digits g =
      some (digits + run.length, run.foldl (fun g c => g * 16 + hexValue c) g, rest) := by
  induction run generalizing digits g with
  | nil =>
    cases rest with
    | nil => rfl
    | cons c tail =>
      have last : isXDigit c = false := stop c rfl
      simp [hexRun, last]
  | cons c tail ih =>
    obtain ⟨first, others⟩ := forall_mem_cons.mp hex
    rw [length_cons] at le
    rw [cons_append, hexRun, if_pos first, if_neg (by omega), ih others (by omega),
      foldl_cons, length_cons]
    have same : digits + 1 + tail.length = digits + (tail.length + 1) := by omega
    rw [same]

def Ipv6Groups.gap (groups : Ipv6Groups) : Ipv6Groups := { groups with afterGap := true }

def Ipv6Groups.pushAll (groups : Ipv6Groups) (texts : List Bytes) : Ipv6Groups :=
  (texts.map groupValue).foldl Ipv6Groups.push groups

def afterGroup (left : Nat) (groups : Ipv6Groups) (rest : Bytes) : Option Ipv6Groups :=
  match rest with
  | [] => some groups
  | c :: rest =>
    if c ≠ colon then none
    else
      match rest with
      | [] => none
      | next :: after =>
        if next = colon then
          if groups.afterGap then none
          else if after = [] then some { groups with afterGap := true }
          else parseGroups left after { groups with afterGap := true }
        else parseGroups left (next :: after) groups

theorem push_afterGap (groups : Ipv6Groups) (g : Nat) :
    (groups.push g).afterGap = groups.afterGap := by
  unfold Ipv6Groups.push
  split <;> rfl

theorem parseGroups_group (hex : HexGroup group) (stop : ∀ c ∈ rest.head?, isXDigit c = false)
    (left : Nat) (groups : Ipv6Groups) :
    parseGroups (left + 1) (group ++ rest) groups =
      afterGroup left (groups.push (groupValue group)) rest := by
  have pos := length_pos_of_ne_nil hex.nonempty
  have run : hexRun (group ++ rest) 0 0 = some (0 + group.length, groupValue group, rest) :=
    hexRun_append hex.digits (by rw [Nat.zero_add]; exact hex.short) stop
  rw [parseGroups, run]
  dsimp only
  rw [if_neg (by omega), ← push_afterGap groups (groupValue group)]
  rfl

theorem parseGroups_last (hex : HexGroup group) (left : Nat) (groups : Ipv6Groups) :
    parseGroups (left + 1) group groups = some (groups.push (groupValue group)) := by
  have turn : parseGroups (left + 1) (group ++ []) groups = _ :=
    parseGroups_group hex (by simp) left groups
  rw [append_nil] at turn
  exact turn

theorem exists_group (read : parseGroups (left + 1) s groups = some result) :
    ∃ group rest, HexGroup group ∧ (∀ c ∈ rest.head?, isXDigit c = false) ∧ s = group ++ rest := by
  rw [parseGroups] at read
  split at read
  · cases read
  next digits g rest run =>
    obtain ⟨group, rfl, hex, count, le, -⟩ := hexRun_some (Nat.zero_le 4) run
    split at read
    · cases read
    next some =>
      have nonempty : group ≠ [] := by
        apply ne_nil_of_length_pos
        omega
      refine ⟨group, rest, ⟨nonempty, by omega, hex⟩, ?_, rfl⟩
      intro c mem
      cases rest with
      | nil => cases mem
      | cons d tail =>
        cases mem
        -- what is not a colon ends the loop
        dsimp only at read
        split at read
        · cases read
        next colon_eq =>
          rw [not_not.mp colon_eq]
          rfl

/-! ### All groups -/

theorem afterGroup_some (read : afterGroup left groups rest = some result) :
    (rest = [] ∧ result = groups) ∨
    (∃ after, rest = colon :: after ∧ parseGroups left after groups = some result) ∨
    (groups.afterGap = false ∧ ∃ after, rest = colon :: colon :: after ∧
      (after = [] ∧ result = groups.gap ∨ parseGroups left after groups.gap = some result)) := by
  unfold afterGroup at read
  grind [Ipv6Groups.gap]

theorem afterGroup_colon (other : c ≠ colon) (tail : Bytes) (left : Nat) (groups : Ipv6Groups) :
    afterGroup left groups (colon :: c :: tail) = parseGroups left (c :: tail) groups := by
  simp [afterGroup, other]

theorem afterGroup_gap (opened : groups.afterGap = false) (after : Bytes) (left : Nat) :
    afterGroup left groups (colon :: colon :: after) =
      if after = [] then some groups.gap else parseGroups left after groups.gap := by
  simp [afterGroup, opened, Ipv6Groups.gap]

theorem parseGroups_iff :
    parseGroups left s groups = some result ↔ ∃ front, front ≠ [] ∧ HexGroups front ∧
      ((s = colons front ∧ front.length ≤ left ∧ result = groups.pushAll front) ∨
        groups.afterGap = false ∧ ∃ back, HexGroups back ∧ front.length + back.length ≤ left ∧
          s = colons front ++ colon :: colon :: colons back ∧
          result = (groups.pushAll front).gap.pushAll back) := by
  induction left generalizing s groups result with
  | zero =>
    rw [parseGroups]
    refine ⟨nofun, ?_⟩
    rintro ⟨front, nonempty, -, ⟨-, few, -⟩ | ⟨-, back, -, few, -⟩⟩ <;>
      exact absurd (eq_nil_of_length_eq_zero (by omega)) nonempty
  | succ left ih =>
    constructor
    · intro read
      obtain ⟨group, rest, hex, stop, rfl⟩ := exists_group read
      have single : HexGroups [group] := forall_mem_singleton.mpr hex
      rw [parseGroups_group hex stop] at read
      rcases afterGroup_some read with ⟨rfl, rfl⟩ | ⟨after, rfl, later⟩ |
        ⟨opened, after, rfl, ⟨rfl, rfl⟩ | later⟩
      · refine ⟨[group], cons_ne_nil _ _, single, .inl ⟨?_, Nat.le_add_left 1 left, rfl⟩⟩
        rw [append_nil, colons_singleton]
      · obtain ⟨front, nonempty, others, parts⟩ := ih.mp later
        rw [push_afterGap] at parts
        refine ⟨group :: front, cons_ne_nil _ _, forall_mem_cons.mpr ⟨hex, others⟩, ?_⟩
        rw [colons_cons _ nonempty, length_cons]
        rcases parts with ⟨rfl, few, rfl⟩ | ⟨opened, back, hexBack, few, rfl, rfl⟩
        · exact .inl ⟨rfl, Nat.succ_le_succ few, rfl⟩
        · exact .inr ⟨opened, back, hexBack, by omega, by rw [append_assoc, cons_append],
            rfl⟩
      · rw [push_afterGap] at opened
        refine ⟨[group], cons_ne_nil _ _, single, .inr ⟨opened, [],
          forall_mem_nil _, Nat.le_add_left 1 left, ?_, rfl⟩⟩
        rw [colons_singleton]
        rfl
      · rw [push_afterGap] at opened
        obtain ⟨back, -, hexBack, ⟨rfl, few, rfl⟩ | ⟨closed, -⟩⟩ := ih.mp later
        · refine ⟨[group], cons_ne_nil _ _, single, .inr ⟨opened, back, hexBack, ?_, ?_, rfl⟩⟩
          · rw [length_singleton]
            omega
          · rw [colons_singleton]
        · cases closed
    · rintro ⟨front, nonempty, hex, parts⟩
      obtain ⟨group, more, rfl⟩ := exists_cons_of_ne_nil nonempty
      obtain ⟨first, others⟩ := forall_mem_cons.mp hex
      rw [length_cons] at parts
      by_cases last : more = []
      · subst last
        rw [colons_singleton] at parts
        rcases parts with ⟨rfl, -, rfl⟩ | ⟨opened, back, hexBack, few, rfl, rfl⟩
        · rw [parseGroups_last first]
          rfl
        · rw [length_nil] at few
          rw [parseGroups_group first (by simp [not_isXDigit_colon]),
            afterGroup_gap ((push_afterGap _ _).trans opened)]
          split
          next empty =>
            rw [hexBack.colons_eq_nil.mp empty]
            rfl
          next some =>
            exact ih.mpr ⟨back, mt hexBack.colons_eq_nil.mpr some, hexBack,
              .inl ⟨rfl, by omega, rfl⟩⟩
      · rw [colons_cons _ last] at parts
        rcases parts with ⟨rfl, few, rfl⟩ | ⟨opened, back, hexBack, few, rfl, rfl⟩
        · obtain ⟨c, tail, text, other⟩ := HexGroups.head others last []
          rw [append_nil] at text
          rw [parseGroups_group first (by simp [not_isXDigit_colon]), text,
            afterGroup_colon other, ← text]
          exact ih.mpr ⟨more, last, others, .inl ⟨rfl, Nat.le_of_succ_le_succ few, rfl⟩⟩
        · obtain ⟨c, tail, text, other⟩ :=
            HexGroups.head others last (colon :: colon :: colons back)
          rw [append_assoc, cons_append,
            parseGroups_group first (by simp [not_isXDigit_colon]), text,
            afterGroup_colon other, ← text]
          refine ih.mpr ⟨more, last, others, .inr ⟨?_, back, hexBack, by omega, rfl, rfl⟩⟩
          rw [push_afterGap]
          exact opened

/-! ### The address -/

theorem pushAll_front (head tail : List Nat) (texts : List Bytes) :
    Ipv6Groups.pushAll ⟨head, tail, false⟩ texts = ⟨head ++ texts.map groupValue, tail, false⟩ := by
  induction texts generalizing head with
  | nil => rw [map_nil, append_nil]; rfl
  | cons text rest ih =>
    rw [map_cons, append_cons]
    exact ih (head ++ [groupValue text])

theorem pushAll_back (head tail : List Nat) (texts : List Bytes) :
    Ipv6Groups.pushAll ⟨head, tail, true⟩ texts = ⟨head, tail ++ texts.map groupValue, true⟩ := by
  induction texts generalizing tail with
  | nil => rw [map_nil, append_nil]; rfl
  | cons text rest ih =>
    rw [map_cons, append_cons]
    exact ih (tail ++ [groupValue text])

theorem ipv6Bytes_gap :
    ipv6Bytes ⟨head, tail, true⟩ = some bytes ↔ head.length + tail.length ≤ 7 ∧
      bytes = (head ++ replicate (8 - (head.length + tail.length)) 0 ++ tail).flatMap
        groupBytes := by
  unfold ipv6Bytes
  rw [if_pos rfl, Option.ite_none_left_eq_some, Nat.not_lt, Option.some.injEq]
  exact and_congr_right fun _ => eq_comm

theorem ipv6Bytes_full :
    ipv6Bytes ⟨head, [], false⟩ = some bytes ↔
      head.length = 8 ∧ bytes = head.flatMap groupBytes := by
  simp [ipv6Bytes, eq_comm]

theorem parseIpv6_iff :
    parseIpv6 (c :: tail) = some bytes ↔ tail.length ≤ 44 ∧
      ((c ≠ colon ∧ ∃ result, parseGroups 8 (c :: tail) ⟨[], [], false⟩ = some result ∧
          ipv6Bytes result = some bytes) ∨
        c = colon ∧ ∃ rest, tail = colon :: rest ∧
          (rest = [] ∧ bytes = replicate 16 0 ∨
            ∃ result, parseGroups 8 rest ⟨[], [], true⟩ = some result ∧
              ipv6Bytes result = some bytes)) := by
  unfold parseIpv6
  rw [Option.ite_none_left_eq_some]
  apply and_congr
  · rw [length_cons, not_or, and_iff_right (cons_ne_nil c tail)]
    omega
  · by_cases first : c = colon
    · subst first
      cases tail with
      | nil => simp
      | cons d rest =>
        by_cases second : d = colon
        · subst second
          cases rest with
          | nil =>
            have none : parseGroups 8 [] ⟨[], [], true⟩ = none := rfl
            simp [none, @eq_comm _ bytes]
          | cons e rest => simp [Option.bind_eq_some_iff]
        · simp [second]
    · simp [first, Option.bind_eq_some_iff]

theorem parseIpv6_of_text (text : Ipv6Text s bytes) : parseIpv6 s = some bytes := by
  cases text with
  | full groups hex eight =>
    have nonempty : groups ≠ [] := ne_nil_of_length_pos (by omega)
    have short := HexGroups.length_le hex
    obtain ⟨c, tail, start, other⟩ := HexGroups.head hex nonempty []
    have read : parseGroups 8 (colons groups) ⟨[], [], false⟩ = _ :=
      parseGroups_iff.mpr ⟨groups, nonempty, hex, .inl ⟨rfl, Nat.le_of_eq eight, rfl⟩⟩
    rw [append_nil] at start
    rw [start] at short read ⊢
    rw [length_cons] at short
    refine parseIpv6_iff.mpr ⟨by omega, .inl ⟨other, _, read, ?_⟩⟩
    rw [pushAll_front, ipv6Bytes_full, nil_append, length_map]
    exact ⟨eight, rfl⟩
  | gap front back hexFront hexBack few =>
    have short := HexGroups.length_le hexFront
    have shortBack := HexGroups.length_le hexBack
    by_cases none : front = []
    · subst none
      rw [length_nil] at few
      by_cases empty : back = []
      · subst empty
        rfl
      · have read : parseGroups 8 (colons back) ⟨[], [], true⟩ = _ :=
          parseGroups_iff.mpr ⟨back, empty, hexBack, .inl ⟨rfl, by omega, rfl⟩⟩
        refine parseIpv6_iff.mpr ⟨?_, .inr ⟨rfl, _, rfl, .inr ⟨_, read, ?_⟩⟩⟩
        · rw [length_cons]
          omega
        · rw [pushAll_back, ipv6Bytes_gap, nil_append, length_map]
          exact ⟨few, rfl⟩
    · obtain ⟨c, tail, start, other⟩ :=
        HexGroups.head hexFront none (colon :: colon :: colons back)
      have read : parseGroups 8 (colons front ++ colon :: colon :: colons back)
          ⟨[], [], false⟩ = _ :=
        parseGroups_iff.mpr
          ⟨front, none, hexFront, .inr ⟨rfl, back, hexBack, by omega, rfl, rfl⟩⟩
      have total := congrArg length start
      rw [length_append, length_cons, length_cons, length_cons] at total
      rw [start] at read ⊢
      refine parseIpv6_iff.mpr ⟨by omega, .inl ⟨other, _, read, ?_⟩⟩
      rw [pushAll_front, Ipv6Groups.gap, pushAll_back, ipv6Bytes_gap, nil_append,
        nil_append, length_map, length_map]
      exact ⟨few, rfl⟩

theorem text_of_parseIpv6 (read : parseIpv6 s = some bytes) : Ipv6Text s bytes := by
  cases s with
  | nil => cases read
  | cons c tail =>
    obtain ⟨-, ⟨-, result, listed, bytes_eq⟩ | ⟨rfl, rest, rfl, ⟨rfl, rfl⟩ |
      ⟨result, listed, bytes_eq⟩⟩⟩ := parseIpv6_iff.mp read
    · obtain ⟨front, -, hex, ⟨text, -, rfl⟩ | ⟨-, back, hexBack, -, text, rfl⟩⟩ :=
        parseGroups_iff.mp listed
      · rw [pushAll_front, ipv6Bytes_full, nil_append, length_map] at bytes_eq
        rw [text, bytes_eq.2]
        exact Ipv6Text.full front hex bytes_eq.1
      · rw [pushAll_front, Ipv6Groups.gap, pushAll_back, ipv6Bytes_gap, nil_append,
          nil_append, length_map, length_map] at bytes_eq
        rw [text, bytes_eq.2]
        exact Ipv6Text.gap front back hex hexBack bytes_eq.1
    · exact Ipv6Text.gap [] [] (forall_mem_nil _) (forall_mem_nil _) (by decide)
    · obtain ⟨back, -, hex, ⟨rfl, -, rfl⟩ | ⟨closed, -⟩⟩ := parseGroups_iff.mp listed
      · rw [pushAll_back, ipv6Bytes_gap, nil_append, length_map] at bytes_eq
        rw [bytes_eq.2]
        exact Ipv6Text.gap [] back (forall_mem_nil _) hex bytes_eq.1
      · cases closed

/-! ## Host names -/

structure HostText (host : Bytes) : Prop where
  short : 1 ≤ host.length ∧ host.length ≤ 253
  labels : ∃ labels : List Bytes, labels ≠ [] ∧ host = dotted labels ∧
    ∀ label ∈ labels, NameLabel label ∧ label.length ≤ 63
  name : ∃ c ∈ host, isDigit c = false ∧ c ≠ dot

theorem validLabels_label (inside : dot ∉ label) (stop : ∀ c ∈ rest.head?, c = dot)
    (valid : validLabels (label ++ rest) n = true) :
    (∀ c ∈ label, isAlnum c = true ∨ c = hyphen) ∧ (n = 0 → label.head? ≠ some hyphen) ∧
      label.getLast? ≠ some hyphen ∧ n + label.length ≠ 0 := by
  induction label generalizing n with
  | nil =>
    refine ⟨fun c mem => absurd mem not_mem_nil, fun _ => nofun, nofun, ?_⟩
    rw [length_nil, Nat.add_zero]
    rintro rfl
    rw [nil_append] at valid
    cases rest with
    | nil => cases valid
    | cons c tail =>
      obtain rfl := stop c rfl
      rw [validLabels, if_pos rfl, if_pos rfl] at valid
      cases valid
  | cons c label ih =>
    obtain ⟨other, inside⟩ := not_or.mp (mt mem_cons.mpr inside)
    rw [cons_append, validLabels, if_neg (Ne.symm other)] at valid
    simp only [Bool.if_false_left, Bool.and_eq_true, Bool.not_eq_true', decide_eq_false_iff_not,
      Bool.not_eq_false, Bool.or_eq_true, decide_eq_true_eq, not_and, not_or] at valid
    obtain ⟨first, hyphens, -, valid⟩ := valid
    obtain ⟨chars, -, last, -⟩ := ih inside valid
    refine ⟨forall_mem_cons.mpr ⟨first, chars⟩, ?_, ?_, ?_⟩
    · intro zero same
      exact (hyphens (Option.some.inj same)).1 zero
    · cases label with
      | nil =>
        intro same
        obtain ⟨-, behind, next⟩ := hyphens (Option.some.inj same)
        cases rest with
        | nil => exact behind rfl
        | cons d tail => exact next (congrArg some (stop d rfl))
      | cons d label =>
        rw [getLast?_cons_cons]
        exact last
    · rw [length_cons]
      omega

theorem labels_of_validLabels (valid : validLabels host 0 = true) :
    ∃ labels : List Bytes, labels ≠ [] ∧ host = dotted labels ∧
      ∀ label ∈ labels, NameLabel label := by
  induction size : host.length using Nat.strong_induction_on generalizing host with
  | _ n ih =>
    obtain ⟨label, rest, inside, stop, rfl⟩ := exists_until dot host
    obtain ⟨chars, head, last, pos⟩ := validLabels_label inside stop valid
    have named : NameLabel label := by
      refine ⟨?_, chars, head rfl, last⟩
      apply ne_nil_of_length_pos
      omega
    cases rest with
    | nil =>
      refine ⟨[label], cons_ne_nil _ _, ?_, forall_mem_singleton.mpr named⟩
      rw [append_nil, dotted_singleton]
    | cons c tail =>
      obtain rfl := stop c rfl
      have later : validLabels tail 0 = true := by
        have rest := ((validLabels_append chars head last (Nat.zero_le 63)).mp valid).2
        rw [validLabels, if_pos rfl, if_neg (by omega)] at rest
        exact rest
      rw [length_append, length_cons] at size
      obtain ⟨labels, nonempty, rfl, others⟩ := ih tail.length (by omega) later rfl
      obtain ⟨next, more, rfl⟩ := exists_cons_of_ne_nil nonempty
      refine ⟨label :: next :: more, cons_ne_nil _ _, ?_,
        forall_mem_cons.mpr ⟨named, others⟩⟩
      rw [dotted_cons_cons]

theorem isNumeric_eq_false : isNumeric host = false ↔ ∃ c ∈ host, isDigit c = false ∧ c ≠ dot := by
  unfold isNumeric
  rw [all_eq_false]
  simp

theorem validHostname_iff_text : validHostname host = true ↔ HostText host := by
  constructor
  · intro valid
    have bounds : host ≠ [] ∧ host.length ≤ 253 := by
      unfold validHostname at valid
      split at valid
      · cases valid
      next bounds =>
        rw [not_or] at bounds
        exact ⟨bounds.1, Nat.not_lt.mp bounds.2⟩
    obtain ⟨labelled, name⟩ := (validHostname_iff bounds.1 bounds.2).mp valid
    obtain ⟨labels, nonempty, rfl, named⟩ := labels_of_validLabels labelled
    have lengths := (validLabels_dotted nonempty named).mp labelled
    exact ⟨⟨length_pos_of_ne_nil bounds.1, bounds.2⟩,
      ⟨labels, nonempty, rfl, fun label mem => ⟨named label mem, lengths label mem⟩⟩,
      isNumeric_eq_false.mp name⟩
  · rintro ⟨⟨pos, short⟩, ⟨labels, nonempty, rfl, named⟩, name⟩
    refine (validHostname_iff (ne_nil_of_length_pos pos) short).mpr ⟨?_,
      isNumeric_eq_false.mpr name⟩
    exact (validLabels_dotted nonempty fun label mem => (named label mem).1).mpr
      fun label mem => (named label mem).2

end Scshr.Tunnel

namespace Scshr.Mac

open Common Tunnel

/-- Both checks accept exactly their grammar, and an address is read as the bytes it stands
for. -/
theorem endpoint_grammars (s : Bytes) :
    (∀ bytes, parseIpv6 s = some bytes ↔ Ipv6Text s bytes) ∧
      (validHostname s = true ↔ HostText s) :=
  ⟨fun _ => ⟨text_of_parseIpv6, parseIpv6_of_text⟩, validHostname_iff_text⟩

end Scshr.Mac
