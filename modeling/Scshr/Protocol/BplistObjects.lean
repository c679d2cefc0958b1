import Scshr.Protocol.BplistText

/-! Reading the fields and the scalars of a property list back from where they were
written. -/
namespace Scshr.Protocol.Bplist

open Common Lib Lib.Unicode

def Scalar.Plain : Scalar → Prop
  | .str text => BmpText text
  | .data _ => True
  | .int value => -2 ^ 63 ≤ value ∧ value < 2 ^ 63

section Fields

variable {d rest piece : Bytes} {pos value width size : Nat} {marker token : UInt8}

theorem byteAt_placed (placed : Placed d pos (byte :: rest)) : byteAt d pos = .ok byte := by
  unfold byteAt
  rw [placed.head]

theorem bytesAt_placed (placed : Placed d pos piece) : bytesAt d pos piece.length = .ok piece := by
  unfold bytesAt
  rw [if_pos placed.inside, placed.take_eq]

theorem range_placed (placed : Placed d pos piece) :
    range d pos (pos + piece.length) = .ok piece := by
  unfold range
  rw [if_pos ⟨Nat.le_add_right _ _, placed.inside⟩, Nat.add_sub_cancel_left, placed.take_eq]

theorem sizeT_of_le (short : d.length < 2 ^ 63) (inside : value ≤ d.length) :
    sizeT value = value :=
  Nat.mod_eq_of_lt (by omega)

theorem readIntAt_putBe (short : d.length < 2 ^ 63) (placed : Placed d pos (putBe width value)) :
    readIntAt d width ⟨pos, true⟩ = .ok (value % 256 ^ width, ⟨pos + width, true⟩) := by
  have inside := placed.inside
  rw [putBe_length] at inside
  have field := bytesAt_placed placed
  rw [putBe_length] at field
  unfold readIntAt
  dsimp only
  rw [sizeT_of_le short inside, if_neg (Nat.not_lt.mpr inside), field]
  dsimp only [bind, Except.bind]
  rw [beNat_putBe]

theorem readIntAt_placed (short : d.length < 2 ^ 63) (placed : Placed d pos (putBe width value))
    (fits : value < 256 ^ width) :
    readIntAt d width ⟨pos, true⟩ = .ok (value, ⟨pos + width, true⟩) := by
  rw [readIntAt_putBe short placed, Nat.mod_eq_of_lt fits]

theorem length_flatMap_putBe (refs : List Nat) (refSize : Nat) :
    (refs.flatMap (putBe refSize)).length = refs.length * refSize := by
  rw [List.length_flatMap]
  simp

theorem lowNibble_eq (marker : UInt8) : lowNibble marker = marker.toNat % 16 := by
  unfold lowNibble
  rw [UInt8.toNat_and]
  exact Nat.and_two_pow_sub_one_eq_mod marker.toNat 4

theorem highNibble_eq (marker : UInt8) : highNibble marker = marker.toNat / 16 := by
  unfold highNibble
  rw [UInt8.toNat_shiftRight]
  exact Nat.shiftRight_eq_div_pow marker.toNat 4

theorem marker_nibbles (aligned : token.toNat % 16 = 0) (small : low < 16) :
    lowNibble (token ||| UInt8.ofNat low) = low ∧
      highNibble (token ||| UInt8.ofNat low) = highNibble token := by
  have sum : (token ||| UInt8.ofNat low).toNat = token.toNat + low := by
    have high : token.toNat = token.toNat / 16 * 2 ^ 4 := by omega
    rw [UInt8.toNat_or, UInt8.toNat_ofNat_of_lt' (Nat.lt_of_lt_of_le small (by decide)), high]
    exact or_eq_add _ small
  rw [lowNibble_eq, highNibble_eq, highNibble_eq, sum]
  omega

theorem readSize_long (aligned : token.toNat % 16 = 0) (short : d.length < 2 ^ 63) (small : k < 4)
    (placed : Placed d pos ((token ||| 0x0f) :: (0x10 ||| UInt8.ofNat k) :: putBe (2 ^ k) size)) :
    readSize d (token ||| 0x0f) ⟨pos + 1, true⟩ =
      .ok (some (size % 256 ^ 2 ^ k, ⟨pos + 1 + 1 + 2 ^ k, true⟩)) := by
  have low : lowNibble (token ||| 0x0f) = 0x0f := (marker_nibbles aligned (by decide)).1
  obtain ⟨width, high⟩ := marker_nibbles (show (0x10 : UInt8).toNat % 16 = 0 by decide)
    (show k < 16 by omega)
  have inside : ¬ d.length ≤ pos + 1 := by
    have := placed.tail.inside
    rw [List.length_cons] at this
    omega
  have marker := byteAt_placed placed.tail
  have field : readIntAt d (2 ^ k) ⟨pos + 1 + 1, true⟩ = _ :=
    readIntAt_putBe short placed.tail.tail
  have narrow : ¬ 8 < 2 ^ k := by
    have := Nat.pow_le_pow_right (show 0 < 2 by decide) (show k ≤ 3 by omega)
    omega
  unfold readSize
  dsimp only
  rw [if_neg (not_not.mpr low), if_neg inside, marker]
  dsimp only [bind, Except.bind]
  rw [if_neg (not_not.mpr (high.trans (by decide))), width, if_neg narrow, field]
  rfl

theorem readSize_written (aligned : token.toNat % 16 = 0) (short : d.length < 2 ^ 63)
    (placed : Placed d pos (writeSize token size ++ rest)) :
    ∃ marker, byteAt d pos = .ok marker ∧ highNibble marker = highNibble token ∧
      readSize d marker ⟨pos + 1, true⟩ =
        .ok (some (size % 2 ^ 32, ⟨pos + (writeSize token size).length, true⟩)) := by
  have written := placed.left
  have long : ∀ k, k < 3 → size % 256 ^ 2 ^ k = size % 2 ^ 32 →
      writeSize token size = (token ||| 0x0f) :: (0x10 ||| UInt8.ofNat k) :: putBe (2 ^ k) size →
      ∃ marker, byteAt d pos = .ok marker ∧ highNibble marker = highNibble token ∧
        readSize d marker ⟨pos + 1, true⟩ =
          .ok (some (size % 2 ^ 32, ⟨pos + (writeSize token size).length, true⟩)) := by
    intro k small same layout
    rw [layout] at written
    refine ⟨token ||| 0x0f, byteAt_placed written, (marker_nibbles aligned (by decide)).2, ?_⟩
    rw [readSize_long aligned short (by omega) written, layout, List.length_cons,
      List.length_cons, putBe_length, same]
    have next : pos + 1 + 1 + 2 ^ k = pos + (2 ^ k + 1 + 1) := by omega
    rw [next]
  have whole : ∀ bound ≤ 2 ^ 32, size < bound → size % bound = size % 2 ^ 32 := by
    intro bound le below
    rw [Nat.mod_eq_of_lt below, Nat.mod_eq_of_lt (Nat.lt_of_lt_of_le below le)]
  by_cases tiny : size < 15
  · have layout : writeSize token size = [token ||| UInt8.ofNat size] := if_pos tiny
    obtain ⟨low, high⟩ := marker_nibbles aligned (show size < 16 by omega)
    rw [layout] at written
    refine ⟨token ||| UInt8.ofNat size, byteAt_placed written, high, ?_⟩
    rw [layout]
    unfold readSize
    rw [low, if_pos (by omega), Nat.mod_eq_of_lt (by omega)]
    rfl
  · by_cases one : size < 256
    · exact long 0 (by decide) (whole _ (by decide) one) ((if_neg tiny).trans (if_pos one))
    · by_cases two : size < 65536
      · exact long 1 (by decide) (whole _ (by decide) two)
          ((if_neg tiny).trans ((if_neg one).trans (if_pos two)))
      · exact long 2 (by decide) rfl ((if_neg tiny).trans ((if_neg one).trans (if_neg two)))

theorem withSize_placed {α : Type} (short : d.length < 2 ^ 63)
    (inside : next + size * width ≤ d.length)
    (read : readSize d marker ⟨pos + 1, true⟩ = .ok (some (size, ⟨next, true⟩)))
    (body : Nat → Cursor → Except Fault (Result α)) :
    withSize sizeT d marker width ⟨pos + 1, true⟩ body = body size ⟨next, true⟩ := by
  unfold withSize
  rw [read]
  dsimp only
  rw [sizeT_of_le short inside, if_neg (Nat.not_lt.mpr inside)]

theorem utf16_placed (units : List Nat) (fuel : Nat) (enough : units.length ≤ fuel)
    (small : ∀ unit ∈ units, unit < 65536) (placed : Placed d pos (units.flatMap (putBe 2))) :
    utf16 d fuel units.length pos = .ok (units.flatMap utf8) := by
  induction units generalizing pos fuel with
  | nil =>
    unfold utf16
    rfl
  | cons unit units ih =>
    cases fuel with
    | zero => exact absurd enough (Nat.not_succ_le_zero _)
    | succ fuel =>
      rw [List.flatMap_cons] at placed
      have high := byteAt_placed placed
      have low := byteAt_placed placed.tail
      have rest := ih fuel (Nat.le_of_succ_le_succ enough)
        (fun other mem => small other (List.mem_cons_of_mem unit mem)) placed.tail.tail
      have value : be16 (UInt8.ofNat (unit / 256)) (UInt8.ofNat unit) = unit :=
        (be16_ofNat unit).trans (Nat.mod_eq_of_lt (small unit List.mem_cons_self))
      rw [List.length_cons, utf16, high, low]
      dsimp only [bind, Except.bind]
      rw [rest, List.flatMap_cons, value]

theorem kind_eq (high : highNibble marker = highNibble token) : kind marker = kind token := by
  unfold kind
  rw [high]

end Fields

section Objects

variable {reader : Reader} {pos ref : Nat}

theorem readObject_marker (depth : Nat) (offset : reader.offsets[ref]? = some pos)
    (first : byteAt reader.d pos = .ok marker) :
    readObject sizeT reader (depth + 1) ref true =
      readBody sizeT reader (readObject sizeT reader depth) marker ⟨pos + 1, true⟩ := by
  have inside : ¬ reader.d.length ≤ pos := by
    intro outside
    unfold byteAt at first
    rw [List.getElem?_eq_none outside] at first
    cases first
  rw [readObject, offset]
  dsimp only
  rw [if_neg inside, first]
  rfl

theorem readObject_bytes (short : reader.d.length < 2 ^ 63) (depth : Nat)
    (offset : reader.offsets[ref]? = some pos) (make : Bytes → Value)
    (aligned : token.toNat % 16 = 0)
    (body : ∀ read marker cursor, kind marker = kind token →
      readBody sizeT reader read marker cursor =
        withSize sizeT reader.d marker 1 cursor fun n cursor => do
          let bytes ← range reader.d cursor.pos (sizeT (cursor.pos + n))
          .ok (some (make bytes, cursor.ok)))
    (placed : Placed reader.d pos (writeSize token piece.length ++ piece)) :
    readObject sizeT reader (depth + 1) ref true =
      .ok (some (make (piece.take (piece.length % 2 ^ 32)), true)) := by
  have part := placed.right.take (piece.length % 2 ^ 32)
  have count : (piece.take (piece.length % 2 ^ 32)).length = piece.length % 2 ^ 32 :=
    List.length_take_of_le (Nat.mod_le _ _)
  have inside := part.inside
  have bytes := range_placed part
  rw [count] at inside bytes
  obtain ⟨marker, first, high, size⟩ := readSize_written aligned short placed
  rw [readObject_marker depth offset first, body _ _ _ (kind_eq high),
    withSize_placed short (by rw [Nat.mul_one]; exact inside) size]
  dsimp only
  rw [sizeT_of_le short inside, bytes]
  rfl

theorem readObject_utf16 (short : reader.d.length < 2 ^ 63) (depth : Nat)
    (offset : reader.offsets[ref]? = some pos) {units : List Nat}
    (small : ∀ unit ∈ units, unit < 65536)
    (placed : Placed reader.d pos (writeSize 0x60 units.length ++ units.flatMap (putBe 2))) :
    readObject sizeT reader (depth + 1) ref true =
      .ok (some (.str ((units.take (units.length % 2 ^ 32)).flatMap utf8), true)) := by
  have split : units.flatMap (putBe 2) = (units.take (units.length % 2 ^ 32)).flatMap (putBe 2) ++
      (units.drop (units.length % 2 ^ 32)).flatMap (putBe 2) := by
    rw [← List.flatMap_append, List.take_append_drop]
  have part := placed.right
  rw [split] at part
  have count : (units.take (units.length % 2 ^ 32)).length = units.length % 2 ^ 32 :=
    List.length_take_of_le (Nat.mod_le _ _)
  have inside := part.left.inside
  rw [length_flatMap_putBe, count] at inside
  obtain ⟨marker, first, high, size⟩ := readSize_written (by decide) short placed
  have body := utf16_placed (units.take (units.length % 2 ^ 32)) reader.d.length (by omega)
    (fun unit mem => small unit (List.mem_of_mem_take mem)) part.left
  rw [count] at body
  rw [readObject_marker depth offset first]
  unfold readBody
  rw [kind_eq high]
  show withSize sizeT reader.d marker 2 _ _ = _
  rw [withSize_placed short inside size]
  dsimp only
  rw [body]
  rfl

theorem readObject_ascii (short : reader.d.length < 2 ^ 63) (depth : Nat)
    (offset : reader.offsets[ref]? = some pos)
    (placed : Placed reader.d pos (writeSize 0x50 text.length ++ text)) :
    readObject sizeT reader (depth + 1) ref true =
      .ok (some (.str (text.take (text.length % 2 ^ 32)), true)) := by
  refine readObject_bytes short depth offset .str (by decide) ?_ placed
  intro read marker cursor same
  unfold readBody
  rw [same]
  rfl

theorem readObject_data (short : reader.d.length < 2 ^ 63) (depth : Nat)
    (offset : reader.offsets[ref]? = some pos)
    (placed : Placed reader.d pos (writeSize 0x40 bytes.length ++ bytes)) :
    readObject sizeT reader (depth + 1) ref true =
      .ok (some (.data (bytes.take (bytes.length % 2 ^ 32)), true)) := by
  refine readObject_bytes short depth offset .data (by decide) ?_ placed
  intro read marker cursor same
  unfold readBody
  rw [same]
  rfl

theorem readObject_width (short : reader.d.length < 2 ^ 63) (depth : Nat)
    (offset : reader.offsets[ref]? = some pos) (narrow : k < 4) (fits : value < 256 ^ 2 ^ k)
    (placed : Placed reader.d pos ((0x10 ||| UInt8.ofNat k) :: putBe (2 ^ k) value)) :
    readObject sizeT reader (depth + 1) ref true = .ok (some (.int (int64 value), true)) := by
  obtain ⟨width, high⟩ := marker_nibbles (show (0x10 : UInt8).toNat % 16 = 0 by decide)
    (show k < 16 by omega)
  have field : readIntAt reader.d (2 ^ k) ⟨pos + 1, true⟩ = _ :=
    readIntAt_placed short placed.tail fits
  have within : ¬ 8 < 2 ^ k := by
    have := Nat.pow_le_pow_right (show 0 < 2 by decide) (show k ≤ 3 by omega)
    omega
  rw [readObject_marker depth offset (byteAt_placed placed)]
  unfold readBody
  rw [kind_eq high]
  show (if 8 < 2 ^ lowNibble (0x10 ||| UInt8.ofNat k) then _ else _) = _
  rw [width, if_neg within, field]
  rfl

theorem readObject_int (short : reader.d.length < 2 ^ 63) (depth : Nat)
    (offset : reader.offsets[ref]? = some pos) (low : -2 ^ 63 ≤ x) (high : x < 2 ^ 63)
    (placed : Placed reader.d pos (writeInt x)) :
    readObject sizeT reader (depth + 1) ref true = .ok (some (.int x, true)) := by
  -- the width written, and the number it stands for
  have read : ∀ k value, k < 4 → value < 256 ^ 2 ^ k → int64 value = x →
      writeInt x = (0x10 ||| UInt8.ofNat k) :: putBe (2 ^ k) value →
      readObject sizeT reader (depth + 1) ref true = .ok (some (.int x, true)) := by
    intro k value narrow fits same layout
    rw [layout] at placed
    rw [readObject_width short depth offset narrow fits placed, same]
  have nonneg : ∀ bound ≤ (2 : Int) ^ 63, 0 ≤ x ∧ x < bound → int64 x.toNat = x := by
    intro bound small range
    unfold int64
    rw [if_pos (by omega)]
    omega
  unfold writeInt at read
  by_cases one : 0 ≤ x ∧ x < 2 ^ 8
  · exact read 0 x.toNat (by decide) (by omega) (nonneg _ (by decide) one) (if_pos one)
  · by_cases two : 0 ≤ x ∧ x < 2 ^ 16
    · refine read 1 x.toNat (by decide) (by omega) (nonneg _ (by decide) two) ?_
      exact (if_neg one).trans (if_pos two)
    · by_cases four : 0 ≤ x ∧ x < 2 ^ 32
      · refine read 2 x.toNat (by decide) (by omega) (nonneg _ (by decide) four) ?_
        exact (if_neg one).trans ((if_neg two).trans (if_pos four))
      · refine read 3 (x % 2 ^ 64).toNat (by decide) (by omega) ?_ ?_
        · unfold int64
          split <;> omega
        · exact (if_neg one).trans ((if_neg two).trans (if_neg four))

theorem readObject_scalar (short : reader.d.length < 2 ^ 63) (depth : Nat)
    (offset : reader.offsets[ref]? = some pos) (plain : scalar.Plain)
    (fits : (writeScalar scalar).length < 2 ^ 32)
    (placed : Placed reader.d pos (writeScalar scalar)) :
    readObject sizeT reader (depth + 1) ref true = .ok (some (scalar.value, true)) := by
  have kept : ∀ {α : Type} (piece : List α), piece.length < 2 ^ 32 →
      piece.take (piece.length % 2 ^ 32) = piece := by
    intro α piece small
    rw [Nat.mod_eq_of_lt small, List.take_length]
  cases scalar with
  | str text =>
    have written : Placed reader.d pos (writeString text) := placed
    have size : (writeString text).length < 2 ^ 32 := fits
    unfold writeString at written size
    split at written
    next ascii =>
      rw [if_pos ascii, List.length_append] at size
      rw [readObject_ascii short depth offset written, kept text (by omega)]
      rfl
    next wide =>
      obtain ⟨chars, bmp, same⟩ := plain
      have text_eq : text = encodeUtf8 chars := same
      rw [if_neg wide, List.length_append, length_flatMap_putBe] at size
      rw [text_eq, toUtf16_encodeUtf8] at written size
      rw [readObject_utf16 short depth offset (encodeUtf16_lt chars) written,
        kept _ (by omega), flatMap_utf8_encodeUtf16 bmp, ← text_eq]
      rfl
  | data bytes =>
    have size : (writeSize 0x40 bytes.length ++ bytes).length < 2 ^ 32 := fits
    rw [List.length_append] at size
    rw [readObject_data short depth offset placed, kept bytes (by omega)]
    rfl
  | int x => exact readObject_int short depth offset plain.1 plain.2 placed

end Objects

end Scshr.Protocol.Bplist
