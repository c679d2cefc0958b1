import Scshr.Protocol.Bplist

/-! When `bplist::load` is safe.  Every size check of the reader adds in 64 bits,
so a size near `2 ^ 64` passes it.  The reader is compared with the one that
measures strings exactly: the two agree on every input on which no such string
and no runaway container is met, and on every other one the code faults. -/
namespace Scshr.Protocol.Bplist

open Common

/-- `pos + n * width` does not fit into 64 bits. -/
def wraps (width n : Nat) (cursor : Cursor) : Bool :=
  decide (2 ^ 64 ≤ cursor.pos + n * width)

def sizedHazard (d : Bytes) (marker : UInt8) (width : Nat) (cursor : Cursor)
    (bad : Nat → Cursor → Bool) : Bool :=
  match readSize d marker cursor with
  | .ok (some (n, cursor)) =>
      decide (sizeT (cursor.pos + n * width) ≤ d.length) && bad n cursor
  | _ => false

/-- A hazard among the elements of an array, each looked at only when the ones
before it are readable; more readable elements than bytes are a hazard too. -/
def elementsHazard (bad : Nat → Bool → Bool) (exact : ObjectReader) (d : Bytes) (refSize : Nat) :
    Nat → Nat → Cursor → Bool
  | _, 0, _ => false
  | 0, _ + 1, _ => true
  | fuel + 1, n + 1, cursor =>
      match readIntAt d refSize cursor with
      | .error _ => false
      | .ok (ref, cursor) =>
          bad ref cursor.ok ||
            match exact ref cursor.ok with
            | .ok (some (_, ok)) =>
                elementsHazard bad exact d refSize fuel n { cursor with ok }
            | _ => false

def entriesHazard (bad : Nat → Bool → Bool) (exact : ObjectReader) :
    List Nat → List Nat → Bool → Bool
  | kref :: krefs, vref :: vrefs, ok =>
      bad kref ok ||
        match exact kref ok with
        | .ok (some (key, ok)) => key.str?.isSome &&
            (bad vref ok ||
              match exact vref ok with
              | .ok (some (_, ok)) => entriesHazard bad exact krefs vrefs ok
              | _ => false)
        | _ => false
  | _, _, _ => false

/-- The hazards of one object: a string with a wrapped end, a dictionary of more
entries than bytes, or a hazard further down. -/
def bodyHazard (reader : Reader) (bad : Nat → Bool → Bool) (exact : ObjectReader)
    (marker : UInt8) (cursor : Cursor) : Bool :=
  let d := reader.d
  match kind marker with
  | .data => sizedHazard d marker 1 cursor (wraps 1)
  | .ascii => sizedHazard d marker 1 cursor (wraps 1)
  | .utf16 => sizedHazard d marker 2 cursor (wraps 2)
  | .array => sizedHazard d marker reader.refSize cursor
      (elementsHazard bad exact d reader.refSize d.length)
  | .dict => sizedHazard d marker (2 * reader.refSize) cursor fun n cursor =>
      decide (d.length < n) ||
        match dictReferences d reader.refSize n cursor with
        | .ok (krefs, vrefs, ok) => entriesHazard bad exact krefs vrefs ok
        | .error _ => false
  | _ => false

def objectHazard (reader : Reader) : Nat → Nat → Bool → Bool
  | 0, _, _ => false
  | depth + 1, ref, ok =>
      match reader.offsets[ref]? with
      | none => false
      | some pos =>
          match reader.d[pos]? with
          | none => false
          | some marker => bodyHazard reader (objectHazard reader depth)
              (readObject id reader depth) marker ⟨pos + 1, ok⟩

def hazard (data : Bytes) : Bool :=
  match openPlist data with
  | .ok (some (reader, top)) => objectHazard reader 32 top true
  | _ => false

/-- The code's outcome next to the exact one: a fault in the presence of a
hazard, the same result in its absence. -/
inductive Tracks {α : Type} : Bool → Except Fault α → Except Fault α → Prop
  | fault (fault : Fault) (exact : Except Fault α) : Tracks true (.error fault) exact
  | same (result : α) : Tracks false (.ok result) (.ok result)

variable {α : Type} {bad : Bool} {code exact : Except Fault α} {data : Bytes}

theorem Tracks.ok_iff (h : Tracks bad code exact) :
    (∃ result, code = .ok result) ↔ bad = false := by
  cases h <;> simp

theorem Tracks.map {β : Type} (f : α → β) (h : Tracks bad code exact) :
    Tracks bad (f <$> code) (f <$> exact) := by
  cases h with
  | fault fault exact => exact .fault fault _
  | same result => exact .same (f result)

section Fields

variable {d : Bytes} {cursor : Cursor} {pos refSize fuel n first last : Nat}

theorem byteAt_of_lt (hpos : pos < d.length) :
    ∃ byte, d[pos]? = some byte ∧ byteAt d pos = .ok byte := by
  refine ⟨d[pos], List.getElem?_eq_getElem hpos, ?_⟩
  simp [byteAt, List.getElem?_eq_getElem hpos]

theorem byteAt_of_le (hpos : d.length ≤ pos) : byteAt d pos = .error .outOfBounds := by
  simp [byteAt, List.getElem?_eq_none hpos]

theorem readIntAt_spec (hd : d.length < 2 ^ 63) (hbytes : nbytes ≤ 8)
    (hpos : cursor.pos ≤ d.length) :
    ∃ value next, readIntAt d nbytes cursor = .ok (value, next) ∧
      next.pos ≤ d.length ∧ value < 2 ^ 64 := by
  have hfits : sizeT (cursor.pos + nbytes) = cursor.pos + nbytes :=
    Nat.mod_eq_of_lt (by omega)
  by_cases hroom : d.length < cursor.pos + nbytes
  · exact ⟨0, { cursor with ok := false }, by simp [readIntAt, hfits, hroom], hpos, by omega⟩
  · have hvalue : beNat ((d.drop cursor.pos).take nbytes) < 2 ^ 64 := by
      have hlt := beNat_lt ((d.drop cursor.pos).take nbytes)
      have hlen : ((d.drop cursor.pos).take nbytes).length ≤ 8 := by
        simp only [List.length_take, List.length_drop]
        omega
      have hpow : 256 ^ ((d.drop cursor.pos).take nbytes).length ≤ 256 ^ 8 :=
        Nat.pow_le_pow_right (by omega) hlen
      omega
    refine ⟨_, { cursor with pos := cursor.pos + nbytes }, ?_, by simp only; omega, hvalue⟩
    simp [readIntAt, bytesAt, hfits, hroom, Nat.le_of_not_lt hroom, bind, Except.bind]

theorem readSize_spec (marker : UInt8) (hd : d.length < 2 ^ 63) (hpos : cursor.pos ≤ d.length) :
    readSize d marker cursor = .ok none ∨
      ∃ n next, readSize d marker cursor = .ok (some (n, next)) ∧
        next.pos ≤ d.length ∧ n < 2 ^ 64 := by
  unfold readSize
  by_cases hlow : lowNibble marker ≠ 0x0f
  · have hsmall : lowNibble marker < 256 := (marker &&& 0x0f).toNat_lt
    exact .inr ⟨lowNibble marker, cursor, by simp [hlow], hpos, by omega⟩
  by_cases hend : d.length ≤ cursor.pos
  · simp [hlow, hend]
  obtain ⟨m, -, hm⟩ := byteAt_of_lt (Nat.lt_of_not_le hend)
  by_cases htop : highNibble m ≠ 1
  · simp [hlow, hend, hm, htop, bind, Except.bind]
  by_cases hwide : 8 < 2 ^ lowNibble m
  · simp [hlow, hend, hm, htop, hwide, bind, Except.bind]
  have hstart : (Cursor.mk (cursor.pos + 1) cursor.ok).pos ≤ d.length := Nat.lt_of_not_le hend
  obtain ⟨size, next, hint, hnext, hsize⟩ := readIntAt_spec hd (Nat.le_of_not_lt hwide) hstart
  cases hok : next.ok with
  | false => simp [hlow, hend, hm, htop, hwide, hint, hok, bind, Except.bind]
  | true =>
    refine .inr ⟨size, next, ?_, hnext, hsize⟩
    simp [hlow, hend, hm, htop, hwide, hint, hok, bind, Except.bind]

theorem references_of_le (hd : d.length < 2 ^ 63) (href : refSize ≤ 8) (hn : n ≤ fuel)
    (hpos : cursor.pos ≤ d.length) :
    ∃ refs next, references d refSize fuel n cursor = .ok (refs, next) ∧ next.pos ≤ d.length := by
  induction fuel generalizing n cursor with
  | zero =>
    obtain rfl : n = 0 := by omega
    exact ⟨[], cursor, by simp [references], hpos⟩
  | succ fuel ih =>
    cases n with
    | zero => exact ⟨[], cursor, by simp [references], hpos⟩
    | succ n =>
      obtain ⟨ref, next, hint, hnext, -⟩ := readIntAt_spec hd href hpos
      obtain ⟨refs, last, hrefs, hlast⟩ := ih (n := n) (by omega) hnext
      exact ⟨ref :: refs, last, by simp [references, hint, hrefs, bind, Except.bind], hlast⟩

theorem references_runaway (hd : d.length < 2 ^ 63) (href : refSize ≤ 8) (hn : fuel < n)
    (hpos : cursor.pos ≤ d.length) : references d refSize fuel n cursor = .error .runaway := by
  induction fuel generalizing n cursor with
  | zero =>
    obtain ⟨n, rfl⟩ := Nat.exists_eq_add_one_of_ne_zero (by omega : n ≠ 0)
    rfl
  | succ fuel ih =>
    obtain ⟨n, rfl⟩ := Nat.exists_eq_add_one_of_ne_zero (by omega : n ≠ 0)
    obtain ⟨ref, next, hint, hnext, -⟩ := readIntAt_spec hd href hpos
    simp [references, hint, ih (n := n) (by omega) hnext, bind, Except.bind]

theorem dictReferences_of_le (hd : d.length < 2 ^ 63) (href : refSize ≤ 8) (hn : n ≤ d.length)
    (hpos : cursor.pos ≤ d.length) : ∃ refs, dictReferences d refSize n cursor = .ok refs := by
  obtain ⟨krefs, next, hkrefs, hnext⟩ := references_of_le hd href hn hpos
  obtain ⟨vrefs, last, hvrefs, -⟩ := references_of_le hd href hn hnext
  exact ⟨(krefs, vrefs, last.ok), by simp [dictReferences, hkrefs, hvrefs, bind, Except.bind]⟩

theorem utf16_of_le (hn : n ≤ fuel) (hpos : pos + n * 2 ≤ d.length) :
    ∃ text, utf16 d fuel n pos = .ok text := by
  induction fuel generalizing n pos with
  | zero =>
    obtain rfl : n = 0 := by omega
    exact ⟨[], by simp [utf16]⟩
  | succ fuel ih =>
    cases n with
    | zero => exact ⟨[], by simp [utf16]⟩
    | succ n =>
      obtain ⟨high, -, hhigh⟩ := byteAt_of_lt (by omega : pos < d.length)
      obtain ⟨low, -, hlow⟩ := byteAt_of_lt (by omega : pos + 1 < d.length)
      have hrest : pos + 2 + n * 2 ≤ d.length := by omega
      obtain ⟨rest, hrest⟩ := ih (by omega) hrest
      exact ⟨_, by simp [utf16, hhigh, hlow, hrest, bind, Except.bind]; rfl⟩

theorem utf16_of_gt (fuel : Nat) (hpos : d.length < pos + n * 2) (hstart : pos ≤ d.length) :
    ∃ fault, utf16 d fuel n pos = .error fault := by
  induction fuel generalizing n pos with
  | zero =>
    obtain ⟨n, rfl⟩ := Nat.exists_eq_add_one_of_ne_zero (by omega : n ≠ 0)
    exact ⟨.runaway, rfl⟩
  | succ fuel ih =>
    obtain ⟨n, rfl⟩ := Nat.exists_eq_add_one_of_ne_zero (by omega : n ≠ 0)
    by_cases hhigh : pos < d.length
    · obtain ⟨high, -, hhigh⟩ := byteAt_of_lt hhigh
      by_cases hlow : pos + 1 < d.length
      · obtain ⟨low, -, hlow'⟩ := byteAt_of_lt hlow
        have hrest : d.length < pos + 2 + n * 2 := by omega
        obtain ⟨fault, hfault⟩ := ih hrest (by omega)
        exact ⟨fault, by simp [utf16, hhigh, hlow', hfault, bind, Except.bind]⟩
      · have hout := byteAt_of_le (Nat.le_of_not_lt hlow)
        exact ⟨.outOfBounds, by simp [utf16, hhigh, hout, bind, Except.bind]⟩
    · have hout := byteAt_of_le (Nat.le_of_not_lt hhigh)
      exact ⟨.outOfBounds, by simp [utf16, hout, bind, Except.bind]⟩

theorem range_of_le (hle : first ≤ last) (hlast : last ≤ d.length) :
    ∃ bytes, range d first last = .ok bytes :=
  ⟨_, if_pos ⟨hle, hlast⟩⟩

theorem range_of_gt (hgt : last < first) :
    range d first last = .error .badRange :=
  if_neg fun h => Nat.not_le_of_lt hgt h.1

end Fields

section Sizes

variable {d : Bytes} {cursor : Cursor} {width : Nat}

/-- One rule for the strings: it is enough to compare the bodies, once for a size
that fits the buffer and once for a wrapped one, where the exact reader stops at
the check. -/
theorem withSize_tracks {α : Type} (marker : UInt8) {bad : Nat → Cursor → Bool}
    {code exact : Nat → Cursor → Except Fault (Result α)} (hd : d.length < 2 ^ 63)
    (hpos : cursor.pos ≤ d.length)
    (hfits : ∀ n (cursor : Cursor), cursor.pos + n * width ≤ d.length →
      Tracks (bad n cursor) (code n cursor) (exact n cursor))
    (hwraps : ∀ n (cursor : Cursor), n < 2 ^ 64 → cursor.pos ≤ d.length →
      2 ^ 64 ≤ cursor.pos + n * width → sizeT (cursor.pos + n * width) ≤ d.length →
      Tracks (bad n cursor) (code n cursor) (.ok none)) :
    Tracks (sizedHazard d marker width cursor bad) (withSize sizeT d marker width cursor code)
      (withSize id d marker width cursor exact) := by
  unfold sizedHazard withSize
  rcases readSize_spec marker hd hpos with hsize | ⟨n, next, hsize, hnext, hn⟩
  · simp only [hsize]
    exact .same none
  simp only [hsize, id_eq]
  by_cases hcheck : d.length < sizeT (next.pos + n * width)
  · -- both reject: reducing modulo `2 ^ 64` only makes the sum smaller
    have hle : sizeT (next.pos + n * width) ≤ next.pos + n * width := Nat.mod_le _ _
    simp only [hcheck, if_true, Nat.not_le_of_lt hcheck, decide_false, Bool.false_and,
      Nat.lt_of_lt_of_le hcheck hle]
    exact .same none
  have hpass := Nat.le_of_not_lt hcheck
  simp only [hcheck, hpass, if_false, decide_true, Bool.true_and]
  by_cases hroom : d.length < next.pos + n * width
  · have hbig : 2 ^ 64 ≤ next.pos + n * width := by
      by_contra hsmall
      have : sizeT (next.pos + n * width) = next.pos + n * width :=
        Nat.mod_eq_of_lt (Nat.lt_of_not_le hsmall)
      omega
    simp only [hroom, if_true]
    exact hwraps n next hn hnext hbig hpass
  · simp only [hroom, if_false]
    exact hfits n next (Nat.le_of_not_lt hroom)

theorem wraps_of_le (hd : d.length < 2 ^ 63) (hfits : cursor.pos + n * width ≤ d.length) :
    wraps width n cursor = false := by
  simp only [wraps, decide_eq_false_iff_not]
  omega

theorem wraps_of_ge (hbig : 2 ^ 64 ≤ cursor.pos + n * width) : wraps width n cursor = true := by
  simpa only [wraps, decide_eq_true_eq] using hbig

theorem bytes_tracks (marker : UInt8) (make : Bytes → Value)
    (hd : d.length < 2 ^ 63) (hpos : cursor.pos ≤ d.length) :
    Tracks (sizedHazard d marker 1 cursor (wraps 1))
      (withSize sizeT d marker 1 cursor fun n cursor => do
        let bytes ← range d cursor.pos (sizeT (cursor.pos + n))
        .ok (some (make bytes, cursor.ok)))
      (withSize id d marker 1 cursor fun n cursor => do
        let bytes ← range d cursor.pos (id (cursor.pos + n))
        .ok (some (make bytes, cursor.ok))) := by
  apply withSize_tracks marker hd hpos
  · intro n cursor hfits
    have hsmall := wraps_of_le hd hfits
    rw [Nat.mul_one] at hfits
    have hexact : sizeT (cursor.pos + n) = cursor.pos + n := Nat.mod_eq_of_lt (by omega)
    obtain ⟨bytes, hbytes⟩ := range_of_le (Nat.le_add_right cursor.pos n) hfits
    simp only [hsmall, hexact, id_eq, hbytes, bind, Except.bind]
    exact .same _
  · intro n cursor hn hstart hbig _
    have hwrap := wraps_of_ge hbig
    rw [Nat.mul_one] at hbig
    have hback : sizeT (cursor.pos + n) < cursor.pos := by
      unfold sizeT
      omega
    simp only [hwrap, range_of_gt hback, bind, Except.bind]
    exact .fault .badRange _

theorem utf16_tracks (marker : UInt8) (hd : d.length < 2 ^ 63) (hpos : cursor.pos ≤ d.length) :
    Tracks (sizedHazard d marker 2 cursor (wraps 2))
      (withSize sizeT d marker 2 cursor fun n cursor => do
        let text ← utf16 d d.length n cursor.pos
        .ok (some (Value.str text, cursor.ok)))
      (withSize id d marker 2 cursor fun n cursor => do
        let text ← utf16 d d.length n cursor.pos
        .ok (some (Value.str text, cursor.ok))) := by
  apply withSize_tracks marker hd hpos
  · intro n cursor hfits
    have hsmall := wraps_of_le hd hfits
    obtain ⟨text, htext⟩ := utf16_of_le (by omega : n ≤ d.length) hfits
    simp only [hsmall, htext, bind, Except.bind]
    exact .same _
  · intro n cursor _ hstart hbig _
    have hwrap := wraps_of_ge hbig
    have hlong : d.length < cursor.pos + n * 2 := by omega
    obtain ⟨fault, hfault⟩ := utf16_of_gt d.length hlong hstart
    simp only [hwrap, hfault, bind, Except.bind]
    exact .fault fault _

end Sizes

section Containers

variable {code exact : ObjectReader} {bad : Nat → Bool → Bool} {d : Bytes} {refSize : Nat}
  {cursor : Cursor}

theorem elements_tracks (hread : ∀ ref ok, Tracks (bad ref ok) (code ref ok) (exact ref ok))
    (hd : d.length < 2 ^ 63) (href : refSize ≤ 8) (fuel n : Nat) (cursor : Cursor)
    (hpos : cursor.pos ≤ d.length) :
    Tracks (elementsHazard bad exact d refSize fuel n cursor)
      (elements code d refSize fuel n cursor) (elements exact d refSize fuel n cursor) := by
  induction fuel generalizing n cursor with
  | zero =>
    cases n with
    | zero => exact .same _
    | succ n => exact .fault .runaway _
  | succ fuel ih =>
    cases n with
    | zero => exact .same _
    | succ n =>
      obtain ⟨ref, next, hint, hnext, -⟩ := readIntAt_spec hd href hpos
      simp only [elementsHazard, elements, hint, bind, Except.bind]
      have helem := hread ref next.ok
      generalize bad ref next.ok = b, code ref next.ok = c, exact ref next.ok = e at helem
      cases helem with
      | fault fault exact => exact .fault fault _
      | same result =>
        cases result with
        | none => exact .same none
        | some element =>
          have hrest := ih n { next with ok := element.2 } hnext
          simp only [Bool.false_or]
          generalize elementsHazard bad exact d refSize fuel n _ = b,
            elements code d refSize fuel n _ = c, elements exact d refSize fuel n _ = e at hrest ⊢
          cases hrest with
          | fault fault exact => exact .fault fault _
          | same result => cases result <;> exact .same _

theorem entries_tracks (hread : ∀ ref ok, Tracks (bad ref ok) (code ref ok) (exact ref ok))
    (krefs vrefs : List Nat) (ok : Bool) (dict : List (Bytes × Value)) :
    Tracks (entriesHazard bad exact krefs vrefs ok) (entries code krefs vrefs ok dict)
      (entries exact krefs vrefs ok dict) := by
  induction krefs generalizing vrefs ok dict with
  | nil => exact .same _
  | cons kref krefs ih =>
    cases vrefs with
    | nil => exact .same _
    | cons vref vrefs =>
      simp only [entriesHazard, entries, bind, Except.bind]
      have hkey := hread kref ok
      generalize bad kref ok = b, code kref ok = c, exact kref ok = e at hkey
      cases hkey with
      | fault fault exact => exact .fault fault _
      | same result =>
        cases result with
        | none => exact .same none
        | some key =>
          simp only [Bool.false_or]
          cases key.1.str? with
          | none => exact .same none
          | some text =>
            simp only [Option.isSome_some, Bool.true_and]
            have hvalue := hread vref key.2
            generalize bad vref key.2 = b, code vref key.2 = c, exact vref key.2 = e at hvalue
            cases hvalue with
            | fault fault exact => exact .fault fault _
            | same result =>
              cases result with
              | none => exact .same none
              | some value => exact ih vrefs value.2 (dictSet text value.1 dict)

theorem withSize_same_tracks {α : Type} (marker : UInt8) {width : Nat} {bad : Nat → Cursor → Bool}
    {code exact : Nat → Cursor → Except Fault (Result α)} (hd : d.length < 2 ^ 63)
    (hpos : cursor.pos ≤ d.length)
    (hbody : ∀ n (cursor : Cursor), cursor.pos ≤ d.length →
      Tracks (bad n cursor) (code n cursor) (exact n cursor)) :
    Tracks (sizedHazard d marker width cursor bad) (withSize sizeT d marker width cursor code)
      (withSize sizeT d marker width cursor exact) := by
  unfold sizedHazard withSize
  rcases readSize_spec marker hd hpos with hsize | ⟨n, next, hsize, hnext, -⟩
  · simp only [hsize]
    exact .same none
  simp only [hsize]
  by_cases hcheck : d.length < sizeT (next.pos + n * width)
  · simp only [hcheck, if_true, Nat.not_le_of_lt hcheck, decide_false, Bool.false_and]
    exact .same none
  · simp only [hcheck, if_false, Nat.le_of_not_lt hcheck, decide_true, Bool.true_and]
    exact hbody n next hnext

theorem array_tracks (hread : ∀ ref ok, Tracks (bad ref ok) (code ref ok) (exact ref ok))
    (marker : UInt8) (hd : d.length < 2 ^ 63) (href : refSize ≤ 8) (hpos : cursor.pos ≤ d.length) :
    Tracks (sizedHazard d marker refSize cursor (elementsHazard bad exact d refSize d.length))
      (withSize sizeT d marker refSize cursor fun n cursor =>
        Result.map Value.array <$> elements code d refSize d.length n cursor)
      (withSize sizeT d marker refSize cursor fun n cursor =>
        Result.map Value.array <$> elements exact d refSize d.length n cursor) := by
  apply withSize_same_tracks marker hd hpos
  intro n cursor hstart
  apply Tracks.map
  exact elements_tracks hread hd href d.length n cursor hstart

theorem dict_tracks (hread : ∀ ref ok, Tracks (bad ref ok) (code ref ok) (exact ref ok))
    (marker : UInt8) (hd : d.length < 2 ^ 63) (href : refSize ≤ 8) (hpos : cursor.pos ≤ d.length) :
    Tracks
      (sizedHazard d marker (2 * refSize) cursor fun n cursor =>
        decide (d.length < n) ||
          match dictReferences d refSize n cursor with
          | .ok (krefs, vrefs, ok) => entriesHazard bad exact krefs vrefs ok
          | .error _ => false)
      (withSize sizeT d marker (2 * refSize) cursor fun n cursor => do
        let (krefs, vrefs, ok) ← dictReferences d refSize n cursor
        Result.map Value.dict <$> entries code krefs vrefs ok [])
      (withSize sizeT d marker (2 * refSize) cursor fun n cursor => do
        let (krefs, vrefs, ok) ← dictReferences d refSize n cursor
        Result.map Value.dict <$> entries exact krefs vrefs ok []) := by
  apply withSize_same_tracks marker hd hpos
  intro n cursor hstart
  by_cases hlong : d.length < n
  · simp only [hlong, decide_true, Bool.true_or, dictReferences,
      references_runaway hd href hlong hstart, bind, Except.bind]
    exact .fault .runaway _
  · obtain ⟨⟨krefs, vrefs, ok⟩, hrefs⟩ :=
      dictReferences_of_le hd href (Nat.le_of_not_lt hlong) hstart
    simp only [hlong, decide_false, Bool.false_or, hrefs, bind, Except.bind]
    apply Tracks.map
    exact entries_tracks hread krefs vrefs ok []

end Containers

theorem readBody_tracks (reader : Reader) {code exact : ObjectReader} {bad : Nat → Bool → Bool}
    (hread : ∀ ref ok, Tracks (bad ref ok) (code ref ok) (exact ref ok))
    (hd : reader.d.length < 2 ^ 63) (marker : UInt8) {cursor : Cursor}
    (hpos : cursor.pos ≤ reader.d.length) :
    Tracks (bodyHazard reader bad exact marker cursor)
      (readBody sizeT reader code marker cursor) (readBody id reader exact marker cursor) := by
  unfold bodyHazard readBody
  cases kind marker with
  | simple => exact .same _
  | int =>
    dsimp only
    split
    · exact .same none
    · have hwidth : 2 ^ lowNibble marker ≤ 8 := by omega
      obtain ⟨value, next, hint, -⟩ := readIntAt_spec hd hwidth hpos
      simp only [hint, bind, Except.bind]
      exact .same _
  | real =>
    dsimp only
    split
    · exact .same none
    · have hwidth : 2 ^ lowNibble marker ≤ 8 := by omega
      obtain ⟨bits, next, hint, -⟩ := readIntAt_spec hd hwidth hpos
      simp only [hint, bind, Except.bind]
      exact .same _
  | data => exact bytes_tracks marker Value.data hd hpos
  | ascii => exact bytes_tracks marker Value.str hd hpos
  | utf16 => exact utf16_tracks marker hd hpos
  | array => exact array_tracks hread marker hd reader.refSize_le hpos
  | dict => exact dict_tracks hread marker hd reader.refSize_le hpos
  | other => exact .same none

theorem readObject_tracks (reader : Reader) (hd : reader.d.length < 2 ^ 63) (depth ref : Nat)
    (ok : Bool) :
    Tracks (objectHazard reader depth ref ok) (readObject sizeT reader depth ref ok)
      (readObject id reader depth ref ok) := by
  induction depth generalizing ref ok with
  | zero => exact .same none
  | succ depth ih =>
    unfold objectHazard readObject
    cases reader.offsets[ref]? with
    | none => exact .same none
    | some pos =>
      by_cases hend : reader.d.length ≤ pos
      · simp only [hend, if_true, List.getElem?_eq_none hend]
        exact .same none
      · obtain ⟨marker, hget, hmarker⟩ := byteAt_of_lt (Nat.lt_of_not_le hend)
        simp only [hend, if_false, hget, hmarker, bind, Except.bind]
        exact readBody_tracks reader ih hd marker (Nat.lt_of_not_le hend)

theorem readOffsets_ok (hd : data.length < 2 ^ 63) (hoff : offSize ≤ 8) (num : Nat)
    (cursor : Cursor) (hpos : cursor.pos ≤ data.length) :
    ∃ offsets, readOffsets data offSize num cursor = .ok offsets := by
  induction num generalizing cursor with
  | zero => exact ⟨some [], rfl⟩
  | succ num ih =>
    obtain ⟨offset, next, hint, hnext, -⟩ := readIntAt_spec hd hoff hpos
    obtain ⟨offsets, hoffsets⟩ := ih next hnext
    simp only [readOffsets, hint, hoffsets, bind, Except.bind]
    cases next.ok <;> cases offsets <;> simp

theorem bytesAt_of_le (hle : pos + count ≤ data.length) :
    ∃ bytes, bytesAt data pos count = .ok bytes :=
  ⟨_, if_pos hle⟩

theorem openPlist_ok (hd : data.length < 2 ^ 63) :
    ∃ opened, openPlist data = .ok opened ∧
      ∀ reader top, opened = some (reader, top) → reader.d = data := by
  by_cases hshort : data.length < 8 + 32
  · exact ⟨none, by simp [openPlist, hshort], by simp⟩
  obtain ⟨magic, hmagic⟩ := bytesAt_of_le (by omega : 0 + 7 ≤ data.length)
  obtain ⟨offSize, -, hoff⟩ := byteAt_of_lt (by omega : data.length - 32 + 6 < data.length)
  obtain ⟨refSize, -, href⟩ := byteAt_of_lt (by omega : data.length - 32 + 7 < data.length)
  obtain ⟨num, hnum⟩ := bytesAt_of_le (by omega : data.length - 32 + 8 + 8 ≤ data.length)
  obtain ⟨top, htop⟩ := bytesAt_of_le (by omega : data.length - 32 + 16 + 8 ≤ data.length)
  obtain ⟨table, htable⟩ := bytesAt_of_le (by omega : data.length - 32 + 24 + 8 ≤ data.length)
  simp only [openPlist, hshort, hmagic, hoff, href, hnum, htop, htable, if_false, bind, Except.bind]
  split
  · exact ⟨none, rfl, by simp⟩
  split
  · rename_i hsizes
    split
    · exact ⟨none, rfl, by simp⟩
    split
    · exact ⟨none, rfl, by simp⟩
    rename_i hroom _
    have hstart : (Cursor.mk (beNat table) true).pos ≤ data.length := by
      simp only
      omega
    obtain ⟨offsets, hoffsets⟩ := readOffsets_ok hd hsizes.2.2.1 (beNat num) _ hstart
    simp only [hoffsets]
    cases offsets with
    | none => exact ⟨none, rfl, by simp⟩
    | some offsets =>
      dsimp only
      split
      · exact ⟨none, rfl, by simp⟩
      · refine ⟨_, rfl, fun reader top hopened => ?_⟩
        cases hopened
        rfl
  · exact ⟨none, rfl, by simp⟩

/-- `load` runs without an access outside the buffer, a bad range or a runaway
loop on exactly the inputs without a hazard. -/
theorem load_safe_iff (data : Bytes) (hsize : data.length < 2 ^ 63) :
    (∃ result, load data = .ok result) ↔ hazard data = false := by
  obtain ⟨opened, hopened, hreader⟩ := openPlist_ok hsize
  unfold load hazard
  simp only [hopened, bind, Except.bind]
  cases opened with
  | none => simp
  | some opened =>
    obtain ⟨reader, top⟩ := opened
    have hd : reader.d.length < 2 ^ 63 := by rwa [hreader reader top rfl]
    have htracks := readObject_tracks reader hd 32 top true
    dsimp only
    rw [← htracks.ok_iff]
    cases readObject sizeT reader 32 top true <;> simp

def dataPlist (size : Bytes) : Bytes :=
  [0x62, 0x70, 0x6c, 0x69, 0x73, 0x74, 0x30, 0x30] ++ [0x4f, 0x13] ++ size ++ [0x08] ++
    ([0, 0, 0, 0, 0, 0, 1, 1] ++ [0, 0, 0, 0, 0, 0, 0, 1] ++ [0, 0, 0, 0, 0, 0, 0, 0] ++
      [0, 0, 0, 0, 0, 0, 0, 18])

theorem load_safe_emptyData :
    hazard (dataPlist [0, 0, 0, 0, 0, 0, 0, 0]) = false ∧
      ∃ result, load (dataPlist [0, 0, 0, 0, 0, 0, 0, 0]) = .ok result :=
  ⟨by decide, (load_safe_iff (dataPlist [0, 0, 0, 0, 0, 0, 0, 0]) (by decide)).mpr (by decide)⟩

set_option maxRecDepth 4000 in
/-- The size `2 ^ 64 - 1` passes the check, and the constructor is handed the
reversed range from 18 to 17. -/
theorem load_wrappedSize_badRange :
    load (dataPlist [255, 255, 255, 255, 255, 255, 255, 255]) = .error .badRange := by
  rfl

end Scshr.Protocol.Bplist
