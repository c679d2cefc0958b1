import Scshr.Tunnel.PairingCodec

/-! The pairing code in the output of a setup run (`extract_server_code` of `app/setup.cpp`). -/
namespace Scshr.App.ServerCode

open Common Lib.Decimal Tunnel List

def tag : Bytes := ascii "SCST1:"

def isBody (c : UInt8) : Bool := isUpper c || isLower c || isDigit c || c == 45 || c == 95

def accepts (code : Bytes) : Bool :=
  (decodeServer code { publicKey := [], endpointHost := [] }).accepted

def keep (best candidate : Bytes) : Bytes := if accepts candidate then candidate else best

/-- The search for the tag goes on one byte further; a candidate is skipped as a whole. -/
def scan (best : Bytes) : Bytes → Bytes
  | [] => best
  | c :: text =>
      if tag <+: c :: text then
        let tail := text.drop (tag.length - 1)
        scan (keep best (tag ++ tail.takeWhile isBody)) (tail.dropWhile isBody)
      else scan best text
termination_by text => text.length
decreasing_by
  · have shorter := (dropWhile_suffix (l := text.drop (tag.length - 1)) isBody).length_le
    exact Nat.lt_succ_of_le (shorter.trans (drop_suffix _ _).length_le)
  · exact Nat.lt_add_one _

def extractServerCode (text : Bytes) : Bytes := scan [] text

/-- The words of a text; two separators in a row have an empty word between them. -/
def words (text : Bytes) : List Bytes := text.splitOnP isSpace

/-- A word without the tag, or the tag and characters of base64url. -/
def Delimited (word : Bytes) : Prop :=
  ¬ tag <:+: word ∨ ∃ body, word = tag ++ body ∧ ∀ c ∈ body, isBody c

theorem tag_of_accepts (h : accepts code) : tag <+: code := by
  rw [accepts, decodeServer, readServer] at h
  cases body : decodePrefixed code "SCST1" with
  | error text =>
    rw [body] at h
    cases h
  | ok body =>
    rw [tagged_of_decodePrefixed body, tagged]
    exact prefix_append _ _

theorem not_isSpace_of_mem_tag (mem : c ∈ tag) : isSpace c = false := by
  have plain : tag.all (!isSpace ·) := by decide
  simpa using all_eq_true.mp plain c mem

theorem not_isBody_of_isSpace (space : isSpace c) : isBody c = false := by
  simp only [isSpace, isBody, isUpper, isLower, isDigit] at space ⊢
  grind

/-- A tag that begins in a word ends in it. -/
theorem tag_within (word : Bytes) (edge : ∀ c ∈ rest.head?, isSpace c)
    (begins : tag <+: word ++ rest) : tag <+: word := by
  obtain within | ⟨more, cut⟩ := prefix_or_prefix_of_prefix begins (prefix_append _ _)
  · exact within
  · rw [← cut, prefix_append_right_inj] at begins
    cases more with
    | nil => exact cut ▸ (append_nil word).symm ▸ prefix_rfl
    | cons c more =>
      obtain ⟨tail, rfl⟩ := begins
      have space := edge c rfl
      rw [not_isSpace_of_mem_tag (cut ▸ mem_append_right _ mem_cons_self)] at space
      cases space

theorem scan_tag (best tail : Bytes) : scan best (tag ++ tail) =
    scan (keep best (tag ++ tail.takeWhile isBody)) (tail.dropWhile isBody) := by
  have begins : tag <+: 83 :: ([67, 83, 84, 49, 58] ++ tail) := prefix_append tag tail
  exact (scan.eq_2 best _ _).trans (if_pos begins)

theorem scan_word (best : Bytes) {rest : Bytes} (edge : ∀ c ∈ rest.head?, isSpace c)
    (shape : Delimited word) : scan best (word ++ rest) = scan (keep best word) rest := by
  obtain none | ⟨body, rfl, all⟩ := shape
  · rw [keep, if_neg fun accepted => none (tag_of_accepts accepted).isInfix]
    induction word with
    | nil => rfl
    | cons c word ih =>
      have apart : ¬ tag <+: c :: (word ++ rest) := fun begins =>
        none (tag_within (c :: word) edge begins).isInfix
      rw [cons_append, scan, if_neg apart]
      exact ih fun inside => none (inside.trans (suffix_cons _ _).isInfix)
  · have stop : rest.takeWhile isBody = [] ∧ rest.dropWhile isBody = rest := by
      cases rest with
      | nil => exact ⟨rfl, rfl⟩
      | cons c rest => simp [not_isBody_of_isSpace (edge c rfl)]
    rw [append_assoc, scan_tag, takeWhile_append_of_pos all, stop.1, append_nil,
      dropWhile_append_of_pos all, stop.2]

theorem scan_words (text best : Bytes) (shape : ∀ word ∈ words text, Delimited word) :
    scan best text = (words text).foldl keep best := by
  induction size : text.length using Nat.strong_induction_on generalizing text best with
  | _ n ih =>
    have plain : ∀ c ∈ text.takeWhile (!isSpace ·), isSpace c = false := fun c mem => by
      simpa using mem_takeWhile_imp mem
    have cut := takeWhile_append_dropWhile (p := (!isSpace ·)) (l := text)
    generalize text.takeWhile (!isSpace ·) = word at plain cut
    cases tail : text.dropWhile (!isSpace ·) with
    | nil =>
      obtain rfl : text = word := by rw [← cut, tail, append_nil]
      rw [words, splitOnP_eq_singleton plain] at shape ⊢
      have only := @scan_word text best [] (by simp) (shape text mem_cons_self)
      rwa [append_nil, scan] at only
    | cons c rest =>
      have space : isSpace c := by
        simpa [tail] using List.head?_dropWhile_not (!isSpace ·) text
      rw [tail] at cut
      subst cut
      rw [words, splitOnP_append_cons_of_forall_mem plain c space] at shape ⊢
      have apart : ¬ tag <+: c :: rest := fun begins =>
        absurd (tag_within [] (by simpa using space) begins) (by decide)
      rw [scan_word best (by simpa using space) (shape word mem_cons_self), scan, if_neg apart]
      rw [length_append, length_cons] at size
      exact ih rest.length (by omega) rest _ (forall_mem_cons.mp shape).2 rfl

theorem foldl_keep (words : List Bytes) (best : Bytes) :
    words.foldl keep best = (words.filter accepts).getLastD best := by
  induction words generalizing best with
  | nil => rfl
  | cons word words ih =>
    rw [foldl_cons, ih, keep, filter_cons]
    split
    · rw [getLastD_cons]
    · rfl

/-- What the scan returns stands in the text. -/
theorem scan_cases (best text : Bytes) :
    scan best text = best ∨ accepts (scan best text) ∧ scan best text <:+: text := by
  induction best, text using scan.induct with
  | case1 best => exact .inl (scan.eq_1 best)
  | case2 best c text begins tail ih =>
    obtain ⟨more, cut⟩ := begins
    have same : more = tail := drop_left.symm.trans (congrArg (List.drop tag.length) cut)
    rw [← cut, scan_tag, same]
    obtain kept | ⟨accepted, inside⟩ := ih
    · rw [kept, keep]
      split
      · next accepted =>
        have begins : tail.takeWhile isBody <+: tail := takeWhile_prefix isBody
        exact .inr ⟨accepted, ((prefix_append_right_inj tag).mpr begins).isInfix⟩
      · exact .inl rfl
    · exact .inr ⟨accepted, inside.trans
        ((dropWhile_suffix isBody).trans (suffix_append _ _)).isInfix⟩
  | case3 best c text apart ih =>
    rw [scan, if_neg apart]
    exact ih.imp_right (And.imp_right fun inside => inside.trans (suffix_cons _ _).isInfix)

/-- In a text of delimited words the last valid code is found, and in every text nothing but a
valid code that stands in it. -/
theorem extractServerCode_last (text : Bytes) :
    ((∀ word ∈ words text, Delimited word) →
      extractServerCode text = ((words text).filter accepts).getLastD []) ∧
    (extractServerCode text = [] ∨
      accepts (extractServerCode text) ∧ extractServerCode text <:+: text) :=
  ⟨fun shape => (scan_words text [] shape).trans (foldl_keep _ _), scan_cases [] text⟩

def pairedCode : Bytes := tagged "SCST1" (serverBody sampleServer)

/-- The output of a setup run: a word in front of the code, and a cut code behind it. -/
def pairedOutput : Bytes := ascii "paired" ++ newline :: (pairedCode ++ newline :: ascii "SCST1:A")

theorem pairedCode_isBody : ∃ body, pairedCode = tag ++ body ∧ ∀ c ∈ body, isBody c := by
  have alphabet : urlAlphabet.all isBody := by
    rw [urlAlphabet_eq]
    decide +kernel
  exact ⟨_, rfl, fun c mem => all_eq_true.mp alphabet c (mem_base64urlEncode mem)⟩

theorem words_pairedOutput :
    words pairedOutput = [ascii "paired", pairedCode, ascii "SCST1:A"] := by
  have plain : ∀ c ∈ pairedCode, isSpace c = false := by
    obtain ⟨body, cut, all⟩ := pairedCode_isBody
    intro c mem
    rw [cut, mem_append] at mem
    obtain mem | mem := mem
    · exact not_isSpace_of_mem_tag mem
    · by_contra space
      have other := not_isBody_of_isSpace (Bool.eq_true_of_not_eq_false space)
      rw [all c mem] at other
      cases other
  rw [words, pairedOutput, splitOnP_append_cons_of_forall_mem (by decide +kernel) newline rfl,
    splitOnP_append_cons_of_forall_mem plain newline rfl, splitOnP_eq_singleton (by decide +kernel)]

theorem extractServerCode_paired :
    (words pairedOutput).filter accepts = [pairedCode] ∧
      extractServerCode pairedOutput = pairedCode := by
  have accepted : accepts pairedCode = true := by
    rw [accepts, decodeServer, pairedCode, readServer_ok_iff.mpr ⟨sampleServer_valid, rfl⟩]
    rfl
  have others : accepts (ascii "paired") = false ∧ accepts (ascii "SCST1:A") = false := by
    decide +kernel
  have valid : (words pairedOutput).filter accepts = [pairedCode] := by
    rw [words_pairedOutput]
    simp [accepted, others.1, others.2]
  refine ⟨valid, ?_⟩
  rw [(extractServerCode_last pairedOutput).1 ?_, valid]
  · rfl
  · rw [words_pairedOutput, forall_mem_cons, forall_mem_cons, forall_mem_singleton]
    exact ⟨.inl (by decide +kernel), .inr pairedCode_isBody,
      .inr ⟨ascii "A", by decide +kernel, by decide +kernel⟩⟩

end Scshr.App.ServerCode
