import Scshr.Mac.Shell
import Mathlib.Data.List.TakeWhile

/-! What the script's tools make of their texts, and what its checks of numbers accept:
digits, with or without white space lines in front of them. -/
namespace Scshr.Mac

open Common Lib Lib.Decimal Tunnel List

variable {digits text word line : Bytes} {value bound : Int} {accepts : Bytes → Bool}

theorem newline_notMem_digits (h : digits.all isDigit) : newline ∉ digits := by
  intro hmem
  exact absurd (all_eq_true.mp h newline hmem) (by decide)

theorem eq_nil_of_isSpace (hspace : ∀ c ∈ text, isSpace c) (hdigits : ∀ c ∈ text, isDigit c) :
    text = [] := by
  cases text with
  | nil => rfl
  | cons c rest =>
    have hc := not_isSpace_of_isDigit (hdigits c mem_cons_self)
    rw [hspace c mem_cons_self] at hc
    cases hc

theorem splitSign_cases (text : Bytes) :
    (splitSign text = (false, text)) ∨
      ∃ sign, isDigit sign = false ∧ sign ≠ newline ∧ text = sign :: (splitSign text).2 := by
  unfold splitSign
  split
  · exact .inr ⟨45, by decide, by decide, rfl⟩
  · exact .inr ⟨43, by decide, by decide, rfl⟩
  · exact .inl rfl

theorem testNumber_some (h : testNumber word = some value) :
    ∃ front sign run blanks, word = front ++ (sign ++ run ++ blanks) ∧
      (∀ c ∈ front, isSpace c) ∧ (∀ c ∈ sign, isDigit c = false ∧ c ≠ newline) ∧
      run ≠ [] ∧ run.all isDigit ∧ (∀ c ∈ blanks, isBlank c) ∧
      (sign = [] → value = read run) := by
  have hword := takeWhile_append_dropWhile (p := isSpace) (l := word)
  have hfront : ∀ c ∈ word.takeWhile isSpace, isSpace c := fun c hc => mem_takeWhile_imp hc
  unfold testNumber at h
  simp only [Option.ite_none_left_eq_some, Bool.not_eq_true', Bool.not_eq_false,
    all_eq_true, Option.some.injEq] at h
  obtain ⟨hne, hblanks, -, hvalue⟩ := h
  have hbody := takeWhile_append_dropWhile (p := isDigit)
    (l := (splitSign (word.dropWhile isSpace)).2)
  have hrun : ((splitSign (word.dropWhile isSpace)).2.takeWhile isDigit).all isDigit :=
    all_eq_true.mpr fun c hc => mem_takeWhile_imp hc
  rcases splitSign_cases (word.dropWhile isSpace) with hsign | ⟨sign, hdigit, hnewline, hsign⟩
  · refine ⟨_, [], _, _, ?_, hfront, by simp, hne, hrun, hblanks, ?_⟩
    · rw [nil_append, hbody, hsign, hword]
    · intro _
      rw [← hvalue, hsign]
      rfl
  · refine ⟨_, [sign], _, _, ?_, hfront, by simp [hdigit, hnewline], hne, hrun, hblanks, by simp⟩
    rw [append_assoc, hbody, singleton_append, ← hsign, hword]

theorem exists_digits_of_test (haccepts : ∀ line, accepts line → line ≠ [] ∧ line.all isDigit)
    (hgrep : grepQuiet accepts word) (htest : testNumber word = some value) :
    ∃ front digits, word = front ++ digits ∧ (∀ c ∈ front, isSpace c) ∧
      (front = [] ∨ newline ∈ front) ∧ accepts digits ∧ value = read digits := by
  obtain ⟨front, sign, run, blanks, rfl, hfront, hsign, hne, hrun, hblanks, hvalue⟩ :=
    testNumber_some htest
  obtain ⟨all, last, hall, hlast, rfl⟩ := Text.exists_unlines newline front
  have htail : newline ∉ last ++ (sign ++ run ++ blanks) := by
    have hblank : newline ∉ blanks := fun hmem => absurd (hblanks newline hmem) (by decide)
    have hsigned : newline ∉ sign := fun hmem => (hsign newline hmem).2 rfl
    simp [hlast, hsigned, hblank, newline_notMem_digits hrun]
  have hlines : Text.lines newline (Text.unlines newline all ++ last ++ (sign ++ run ++ blanks)) =
      all ++ [last ++ (sign ++ run ++ blanks)] := by
    rw [append_assoc, Text.lines_unlines_append hall, Text.lines_of_notMem htail, if_neg]
    simp [hne]
  rw [grepQuiet, hlines, any_eq_true] at hgrep
  obtain ⟨line, hline, hgood⟩ := hgrep
  obtain ⟨hnonempty, hdigits⟩ := haccepts line hgood
  rw [all_eq_true] at hdigits
  rw [mem_append, mem_singleton] at hline
  rcases hline with hline | rfl
  · -- the lines in front are white space
    have hspace : ∀ c ∈ line, isSpace c := by
      intro c hc
      apply hfront
      rw [mem_append, Text.unlines, mem_flatMap]
      exact .inl ⟨line, hline, mem_append_left _ hc⟩
    exact absurd (eq_nil_of_isSpace hspace hdigits) hnonempty
  · have hlastNil : last = [] := by
      apply eq_nil_of_isSpace
      · exact fun c hc => hfront c (mem_append_right _ hc)
      · exact fun c hc => hdigits c (mem_append_left _ hc)
    have hsignNil : sign = [] := by
      cases sign with
      | nil => rfl
      | cons c rest =>
        have hc := (hsign c mem_cons_self).1
        rw [hdigits c (by simp)] at hc
        cases hc
    have hblanksNil : blanks = [] := by
      apply eq_nil_of_isSpace
      · intro c hc
        have hblank := hblanks c hc
        simp only [isBlank, Bool.or_eq_true, decide_eq_true_iff] at hblank
        rcases hblank with rfl | rfl <;> decide
      · exact fun c hc => hdigits c (by simp [hc])
    subst hlastNil hsignNil hblanksNil
    simp only [append_nil, nil_append] at *
    refine ⟨Text.unlines newline all, run, rfl, hfront, ?_, hgood, hvalue trivial⟩
    cases all with
    | nil => exact .inl rfl
    | cons line rest => exact .inr (by simp)

theorem testLe_iff : testLe word bound ↔ ∃ value, testNumber word = some value ∧ value ≤ bound := by
  unfold testLe
  cases testNumber word with
  | none => simp
  | some value => simp

theorem testGe_iff : testGe word bound ↔ ∃ value, testNumber word = some value ∧ bound ≤ value := by
  unfold testGe
  cases testNumber word with
  | none => simp
  | some value => simp

theorem testNumber_digits (hne : digits ≠ []) (h : digits.all isDigit) :
    testNumber digits =
      if read digits ≤ 9223372036854775807 then some (read digits : Int) else none := by
  obtain ⟨c, rest, rfl⟩ := exists_cons_of_ne_nil hne
  have hc : isDigit c := all_eq_true.mp h c mem_cons_self
  have hspace : (c :: rest).dropWhile isSpace = c :: rest :=
    dropWhile_cons_of_neg (by simp [not_isSpace_of_isDigit hc])
  have hrun : (c :: rest).takeWhile isDigit = c :: rest :=
    takeWhile_eq_self_iff.mpr (all_eq_true.mp h)
  have hend : (c :: rest).dropWhile isDigit = [] :=
    dropWhile_eq_nil_iff.mpr (all_eq_true.mp h)
  simp only [testNumber, hspace, splitSign_digit hc, hrun, hend]
  rw [if_neg hne, if_neg (by simp)]
  by_cases hbound : read (c :: rest) ≤ 9223372036854775807
  · have hrange : ¬ ((read (c :: rest) : Int) < -9223372036854775808 ∨
        9223372036854775807 < (read (c :: rest) : Int)) := by omega
    rw [if_pos hbound]
    exact if_neg hrange
  · have hrange : (read (c :: rest) : Int) < -9223372036854775808 ∨
        9223372036854775807 < (read (c :: rest) : Int) := by omega
    rw [if_neg hbound]
    exact if_pos hrange

theorem testLe_digits (hne : digits ≠ []) (h : digits.all isDigit) {bound : Nat}
    (hbound : bound ≤ 9223372036854775807) : testLe digits bound ↔ read digits ≤ bound := by
  rw [testLe_iff, testNumber_digits hne h]
  split
  · simp
  · simp only [reduceCtorEq, false_and, exists_false, false_iff, not_le]
    omega

theorem testGe_digits (hne : digits ≠ []) (h : digits.all isDigit) {bound : Nat}
    (hlow : bound ≤ read digits) (hhigh : read digits ≤ 9223372036854775807) :
    testGe digits bound := by
  rw [testGe_iff, testNumber_digits hne h, if_pos hhigh]
  exact ⟨_, rfl, by omega⟩

theorem portLine_digits (h : portLine line) : line ≠ [] ∧ line.all isDigit := by
  simp only [portLine, Bool.and_eq_true, decide_eq_true_iff] at h
  refine ⟨?_, h.1.1.1⟩
  rintro rfl
  exact absurd h.1.1.2 (by decide)

theorem write_read_portLine (h : portLine line) : write (read line) = line := by
  obtain ⟨hne, hdigits⟩ := portLine_digits h
  rw [write_read hne hdigits, strip_eq_self_iff]
  simp only [portLine, Bool.and_eq_true, decide_eq_true_iff] at h
  exact fun hzero => h.2 hzero.2

theorem octetLine_digits (h : octetLine line) : line ≠ [] ∧ line.all isDigit := by
  simp only [octetLine, Bool.and_eq_true, decide_eq_true_iff] at h
  refine ⟨?_, h.1.1⟩
  rintro rfl
  exact absurd h.1.2 (by decide)

theorem isPort_cases (h : isPort port) :
    ∃ front digits, port = front ++ digits ∧ (∀ c ∈ front, isSpace c) ∧
      (front = [] ∨ newline ∈ front) ∧ portLine digits ∧ read digits ≤ 65535 := by
  rw [isPort, Bool.and_eq_true, testLe_iff] at h
  obtain ⟨hgrep, value, htest, hbound⟩ := h
  obtain ⟨front, digits, hword, hfront, hnewline, hdigits, rfl⟩ :=
    exists_digits_of_test (fun _ => portLine_digits) hgrep htest
  exact ⟨front, digits, hword, hfront, hnewline, hdigits, by omega⟩

theorem isTunnelIp_cases (h : isTunnelIp ip) :
    ∃ front digits, ip = tunnelSubnetPrefix ++ (front ++ digits) ∧ (∀ c ∈ front, isSpace c) ∧
      (front = [] ∨ newline ∈ front) ∧ octetLine digits ∧ 1 ≤ read digits ∧
      read digits ≤ 254 := by
  unfold isTunnelIp at h
  split at h
  · cases h
  · case h_2 last hlast =>
    rw [Bool.and_eq_true, Bool.and_eq_true, testLe_iff, testGe_iff] at h
    obtain ⟨⟨hgrep, low, htest, hlow⟩, high, htest', hhigh⟩ := h
    rw [htest, Option.some_inj] at htest'
    subst htest'
    obtain ⟨front, digits, rfl, hfront, hnewline, hdigits, rfl⟩ :=
      exists_digits_of_test (fun _ => octetLine_digits) hgrep htest
    unfold stripPrefix at hlast
    split at hlast
    · case isTrue hprefix =>
      obtain ⟨rest, rfl⟩ := isPrefixOf_iff_prefix.mp hprefix
      rw [drop_left, Option.some_inj] at hlast
      exact ⟨front, digits, by rw [hlast], hfront, hnewline, hdigits, by omega, by omega⟩
    · cases hlast

theorem substitution_eq_self (hzero : 0 ∉ text) (hlast : text.getLast? ≠ some newline) :
    substitution text = text := by
  have hfilter : text.filter (· ≠ 0) = text := by
    rw [filter_eq_self]
    intro c hc
    simpa using fun heq : c = 0 => hzero (heq ▸ hc)
  have hdrop : text.reverse.dropWhile (· = newline) = text.reverse := by
    cases hreverse : text.reverse with
    | nil => rfl
    | cons c rest =>
      apply dropWhile_cons_of_neg
      rw [decide_eq_true_iff]
      rintro rfl
      apply hlast
      rw [← List.head?_reverse, hreverse]
      rfl
  rw [substitution, hfilter, hdrop, reverse_reverse]

theorem stripPrefix_append (front text : Bytes) :
    stripPrefix front (front ++ text) = some text := by
  rw [stripPrefix, if_pos ( isPrefixOf_iff_prefix.mpr (prefix_append front text)),
    drop_left]

theorem grepQuiet_single (hne : line ≠ []) (h : newline ∉ line) :
    grepQuiet accepts line = accepts line := by
  rw [grepQuiet, Text.lines_of_notMem h, if_neg hne]
  simp

theorem isTunnelIp_digits (h : octetLine digits) (hlow : 1 ≤ read digits)
    (hhigh : read digits ≤ 254) : isTunnelIp (tunnelSubnetPrefix ++ digits) := by
  obtain ⟨hne, hdigits⟩ := octetLine_digits h
  have hle : testLe digits 254 := (testLe_digits hne hdigits (by decide)).mpr hhigh
  have hge : testGe digits 1 := testGe_digits hne hdigits hlow (by omega)
  rw [isTunnelIp, stripPrefix_append]
  dsimp only
  rw [grepQuiet_single hne (newline_notMem_digits hdigits), h, hle, hge]
  rfl

theorem splitOn_ip (h : digits.all isDigit) :
    (tunnelSubnetPrefix ++ digits).splitOn dot =
      [ascii "10", ascii "77", ascii "77", digits] := by
  have htext : tunnelSubnetPrefix ++ digits =
      [dot].intercalate [ascii "10", ascii "77", ascii "77", digits] := by
    simp [List.intercalate, List.intersperse]
    rfl
  rw [htext]
  apply splitOn_intercalate
  · simp only [forall_mem_cons]
    refine ⟨by decide, by decide, by decide, ?_, by simp⟩
    intro hmem
    exact absurd (all_eq_true.mp h dot hmem) (by decide)
  · simp

end Scshr.Mac
