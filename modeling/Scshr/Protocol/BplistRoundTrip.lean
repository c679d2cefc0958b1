import Scshr.Protocol.BplistObjects

/-! `load` after `dump`.  The references of the root lead to the objects of its keys and
values, each of which is read back from where the offset table says it was written. -/
namespace Scshr.Protocol.Bplist

open Common Lib List

section Table

variable {scalar : Scalar} {dict : FlatDict} {entry : Bytes × Scalar}

theorem toDecimal_injective (same : toDecimal left = toDecimal right) : left = right := by
  have sign : ∀ value digits, Decimal.write value ≠ 0x2d :: digits := by
    intro value digits minus
    have all := Decimal.write_all value
    rw [minus] at all
    simp [Decimal.isDigit] at all
  unfold toDecimal at same
  split at same <;> split at same
  · have := Decimal.write_injective (List.cons.inj same).2
    omega
  · exact absurd same.symm (sign _ _)
  · exact absurd same (sign _ _)
  · have := Decimal.write_injective same
    omega

theorem repr_injective {left right : Scalar} (same : left.repr = right.repr) : left = right := by
  cases left <;> cases right <;> simp_all [Scalar.repr]
  exact toDecimal_injective same

theorem mem_addScalar (objs : List Scalar) (added scalar : Scalar) :
    scalar ∈ addScalar objs added ↔ scalar ∈ objs ∨ scalar = added := by
  unfold addScalar
  split
  next known =>
    obtain ⟨obj, mem, same⟩ := any_eq_true.mp known
    have equal := repr_injective (of_decide_eq_true same)
    constructor
    · exact .inl
    · rintro (mem' | rfl)
      · exact mem'
      · exact equal ▸ mem
  next => rw [mem_append, mem_singleton]

theorem mem_foldl_addScalar (scalars objs : List Scalar) (scalar : Scalar) :
    scalar ∈ scalars.foldl addScalar objs ↔ scalar ∈ objs ∨ scalar ∈ scalars := by
  induction scalars generalizing objs with
  | nil => simp
  | cons first rest ih => rw [foldl_cons, ih, mem_addScalar, mem_cons, or_assoc]

theorem mem_flatten_key (mem : entry ∈ dict.entries) : .str entry.1 ∈ flatten dict := by
  refine (mem_foldl_addScalar _ [] _).mpr (.inr (mem_append_left _ ?_))
  exact mem_map.mpr ⟨entry, mem, rfl⟩

theorem mem_flatten_value (mem : entry ∈ dict.entries) : entry.2 ∈ flatten dict := by
  refine (mem_foldl_addScalar _ [] _).mpr (.inr (mem_append_right _ ?_))
  exact mem_map.mpr ⟨entry, mem, rfl⟩

theorem objects_refOf (mem : scalar ∈ flatten dict) :
    (objects dict)[refOf (flatten dict) scalar]? = some (writeScalar scalar) := by
  let same := fun obj : Scalar => decide (obj.repr = scalar.repr)
  have inside : (flatten dict).findIdx same < (flatten dict).length :=
    findIdx_lt_length_of_exists ⟨scalar, mem, decide_eq_true rfl⟩
  have found : (flatten dict)[(flatten dict).findIdx same].repr = scalar.repr := by
    have holds : same (flatten dict)[(flatten dict).findIdx same] = true :=
      findIdx_getElem
    exact of_decide_eq_true holds
  show ((flatten dict).map writeScalar)[(flatten dict).findIdx same]? = _
  rw [List.getElem?_map, List.getElem?_eq_getElem inside, repr_injective found]
  rfl

theorem refOf_lt (mem : scalar ∈ flatten dict) :
    refOf (flatten dict) scalar < (objects dict).length :=
  (List.getElem?_eq_some_iff.mp (objects_refOf mem)).1

end Table

section References

variable {d : Bytes} {refSize pos : Nat}

theorem references_placed (refs : List Nat) (fuel : Nat) (short : d.length < 2 ^ 63)
    (enough : refs.length ≤ fuel) (fit : ∀ ref ∈ refs, ref < 256 ^ refSize)
    (placed : Placed d pos (refs.flatMap (putBe refSize))) :
    references d refSize fuel refs.length ⟨pos, true⟩ =
      .ok (refs, ⟨pos + refs.length * refSize, true⟩) := by
  induction refs generalizing pos fuel with
  | nil =>
    unfold references
    simp
  | cons ref refs ih =>
    cases fuel with
    | zero => exact absurd enough (Nat.not_succ_le_zero _)
    | succ fuel =>
      rw [flatMap_cons] at placed
      have first := readIntAt_placed short placed.left (fit ref mem_cons_self)
      have next := placed.right
      rw [putBe_length] at next
      have rest := ih fuel (Nat.le_of_succ_le_succ enough)
        (fun other mem => fit other (mem_cons_of_mem ref mem)) next
      have end_eq : pos + refSize + refs.length * refSize = pos + (refs.length + 1) * refSize := by
        rw [Nat.succ_mul]
        omega
      rw [length_cons, references, first]
      dsimp only [bind, Except.bind]
      rw [rest]
      dsimp only
      rw [end_eq]

theorem dictReferences_placed (short : d.length < 2 ^ 63) (enough : krefs.length ≤ d.length)
    (same : vrefs.length = krefs.length) (kfit : ∀ ref ∈ krefs, ref < 256 ^ refSize)
    (vfit : ∀ ref ∈ vrefs, ref < 256 ^ refSize)
    (placed : Placed d pos (krefs.flatMap (putBe refSize) ++ vrefs.flatMap (putBe refSize))) :
    dictReferences d refSize krefs.length ⟨pos, true⟩ = .ok (krefs, vrefs, true) := by
  have keys := references_placed krefs d.length short enough kfit placed.left
  have next := placed.right
  rw [length_flatMap_putBe] at next
  have values := references_placed vrefs d.length short (same ▸ enough) vfit next
  rw [same] at values
  unfold dictReferences
  rw [keys]
  dsimp only [bind, Except.bind]
  rw [values]

theorem readOffsets_placed (offsets : List Nat) (short : d.length < 2 ^ 63)
    (placed : Placed d pos (offsets.flatMap (putBe offSize))) :
    readOffsets d offSize offsets.length ⟨pos, true⟩ =
      .ok (some (offsets.map (· % 256 ^ offSize))) := by
  induction offsets generalizing pos with
  | nil => rfl
  | cons offset offsets ih =>
    rw [flatMap_cons] at placed
    have first := readIntAt_putBe short placed.left
    have next := placed.right
    rw [putBe_length] at next
    rw [length_cons, readOffsets, first]
    dsimp only [bind, Except.bind]
    rw [ih next]
    rfl

theorem dictSet_of_lt (key : Bytes) (value : Value) (dict : List (Bytes × Value))
    (behind : ∀ entry ∈ dict, entry.1 < key) :
    dictSet key value dict = dict ++ [(key, value)] := by
  induction dict with
  | nil => rfl
  | cons entry dict ih =>
    have below := behind entry mem_cons_self
    have other : ¬ key = entry.1 := by
      intro same
      rw [same] at below
      exact List.lt_irrefl entry.1 below
    have above : ¬ key < entry.1 := List.lt_asymm below
    unfold dictSet
    rw [if_neg other, if_neg above, ih fun later mem => behind later (mem_cons_of_mem _ mem)]
    rfl

theorem entries_read (read : ObjectReader) (refOf : Scalar → Nat)
    (pairs : List (Bytes × Scalar)) (done : List (Bytes × Value))
    (keys : ∀ pair ∈ pairs, read (refOf (.str pair.1)) true = .ok (some (.str pair.1, true)))
    (values : ∀ pair ∈ pairs, read (refOf pair.2) true = .ok (some (pair.2.value, true)))
    (ascending : pairs.Pairwise fun left right => left.1 < right.1)
    (behind : ∀ entry ∈ done, ∀ pair ∈ pairs, entry.1 < pair.1) :
    entries read (pairs.map fun pair => refOf (.str pair.1)) (pairs.map fun pair => refOf pair.2)
      true done = .ok (some (done ++ pairs.map fun pair => (pair.1, pair.2.value), true)) := by
  induction pairs generalizing done with
  | nil => simp [entries]
  | cons pair pairs ih =>
    have key := keys pair mem_cons_self
    have value := values pair mem_cons_self
    obtain ⟨first, others⟩ := pairwise_cons.mp ascending
    have rest := ih (done ++ [(pair.1, pair.2.value)])
      (fun later mem => keys later (mem_cons_of_mem pair mem))
      (fun later mem => values later (mem_cons_of_mem pair mem)) others
      (by
        intro entry mem later inside
        rcases mem_append.mp mem with before | here
        · exact behind entry before later (mem_cons_of_mem pair inside)
        · rw [mem_singleton.mp here]
          exact first later inside)
    rw [map_cons, map_cons, entries, key]
    dsimp only [bind, Except.bind, Value.str?]
    rw [value]
    dsimp only
    rw [dictSet_of_lt _ _ _ fun entry mem => behind entry mem pair mem_cons_self, rest,
      append_assoc]
    rfl

end References

section Load

variable {value ref : Nat} {scalar : Scalar}

theorem openPlist_eq (offsets : List Nat) (long : 8 + 32 ≤ data.length)
    (start : bytesAt data 0 7 = .ok [0x62, 0x70, 0x6c, 0x69, 0x73, 0x74, 0x30])
    (offSize : byteAt data (data.length - 32 + 6) = .ok offByte)
    (refs : byteAt data (data.length - 32 + 7) = .ok refByte)
    (num : bytesAt data (data.length - 32 + 8) 8 = .ok numBytes)
    (top : bytesAt data (data.length - 32 + 16) 8 = .ok topBytes)
    (table : bytesAt data (data.length - 32 + 24) 8 = .ok tableBytes)
    (refEq : refByte.toNat = refSize) (low : 1 ≤ refSize) (high : refSize ≤ 8)
    (offs : 1 ≤ offByte.toNat ∧ offByte.toNat ≤ 8) (some : beNat numBytes ≠ 0)
    (few : beNat numBytes ≤ 100000) (inside : beNat tableBytes < data.length)
    (fits : sizeT (beNat tableBytes + beNat numBytes * offByte.toNat) ≤ data.length - 32)
    (root : beNat topBytes < beNat numBytes)
    (read : readOffsets data offByte.toNat (beNat numBytes) ⟨beNat tableBytes, true⟩ =
      .ok (.some offsets)) (below : ∀ offset ∈ offsets, offset < beNat tableBytes) :
    openPlist data = .ok (.some (⟨data, offsets, refSize, low, high⟩, beNat topBytes)) := by
  subst refEq
  unfold openPlist
  rw [if_neg (Nat.not_lt.mpr long), start]
  dsimp only [bind, Except.bind]
  rw [if_neg (not_not.mpr rfl), offSize]
  dsimp only
  rw [refs]
  dsimp only
  rw [num]
  dsimp only
  rw [top]
  dsimp only
  rw [table]
  dsimp only
  rw [dif_pos ⟨⟨low, high⟩, offs.1, offs.2, some, few⟩, if_neg, if_neg (Nat.not_le.mpr root), read]
  · dsimp only
    rw [if_neg]
    intro outside
    obtain ⟨offset, mem, above⟩ := any_eq_true.mp outside
    exact absurd (below offset mem) (Nat.not_lt.mpr (of_decide_eq_true above))
  · rintro (outside | beyond)
    · exact absurd inside (Nat.not_lt.mpr outside)
    · exact absurd beyond (Nat.not_lt.mpr fits)

theorem widthFor_bounds (bound : Nat) : 1 ≤ widthFor bound ∧ widthFor bound ≤ 8 := by
  unfold widthFor
  split
  · decide
  · split <;> decide

theorem lt_widthFor (below : value < bound) (small : value < 2 ^ 32) :
    value < 256 ^ widthFor bound := by
  unfold widthFor
  split
  next one => exact below.trans one
  next =>
    split
    next two => exact below.trans two
    next => exact small

theorem toNat_widthFor (bound : Nat) : (UInt8.ofNat (widthFor bound)).toNat = widthFor bound :=
  UInt8.toNat_ofNat_of_lt' (Nat.lt_of_le_of_lt (widthFor_bounds bound).2 (by decide))

theorem beNat_putBe_eight (small : value < 2 ^ 63) : beNat (putBe 8 value) = value := by
  rw [beNat_putBe]
  exact Nat.mod_eq_of_lt (Nat.lt_of_lt_of_le small (by decide))

theorem trailer_length (offSize refSize num tableOff : Nat) :
    (trailer offSize refSize num tableOff).length = 32 := by
  unfold trailer
  simp

variable (dict : FlatDict)

def tableOff : Nat := 8 + (objects dict).flatten.length

/-- The reader `load` sets up for a dumped dictionary; an offset that is too large for its
field comes back reduced. -/
def dumpReader : Reader where
  d := dump dict
  offsets := (offsetsFrom 8 (objects dict)).map (· % 256 ^ widthFor (tableOff dict))
  refSize := widthFor (objects dict).length
  one_le_refSize := (widthFor_bounds _).1
  refSize_le := (widthFor_bounds _).2

theorem length_objects : (objects dict).length = (flatten dict).length + 1 := by
  unfold objects
  simp

theorem writeSize_ne_nil (token : UInt8) (size : Nat) : writeSize token size ≠ [] := by
  unfold writeSize
  split_ifs <;> exact cons_ne_nil _ _

theorem writeScalar_ne_nil (scalar : Scalar) : writeScalar scalar ≠ [] := by
  cases scalar with
  | str text =>
    show writeString text ≠ []
    unfold writeString
    split <;> exact append_ne_nil_of_left_ne_nil (writeSize_ne_nil _ _) _
  | data bytes => exact append_ne_nil_of_left_ne_nil (writeSize_ne_nil _ _) _
  | int x =>
    show writeInt x ≠ []
    unfold writeInt
    split_ifs <;> exact cons_ne_nil _ _

theorem objects_ne_nil : ∀ object ∈ objects dict, object ≠ [] := by
  intro object mem
  rcases mem_cons.mp mem with rfl | scalar
  · exact append_ne_nil_of_left_ne_nil (writeSize_ne_nil _ _) _
  · obtain ⟨written, -, rfl⟩ := mem_map.mp scalar
    exact writeScalar_ne_nil written

theorem placed_objects : Placed (dump dict) 8 (objects dict).flatten :=
  (placed_self (dump dict)).right.left

theorem placed_table : Placed (dump dict) (tableOff dict)
    ((offsetsFrom 8 (objects dict)).flatMap (putBe (widthFor (tableOff dict)))) :=
  (placed_self (dump dict)).right.right.left

theorem length_table (width : Nat) :
    ((offsetsFrom 8 (objects dict)).flatMap (putBe width)).length =
      (objects dict).length * width := by
  rw [length_flatMap_putBe, length_offsetsFrom]

theorem length_dump : (dump dict).length =
    tableOff dict + (objects dict).length * widthFor (tableOff dict) + 32 := by
  have table := length_table dict (widthFor (tableOff dict))
  have end_length := trailer_length (widthFor (tableOff dict)) (widthFor (objects dict).length)
    (objects dict).length (tableOff dict)
  unfold dump
  dsimp only
  rw [length_append, length_append, length_append]
  unfold tableOff at *
  rw [table, end_length]
  show 8 + _ = _
  omega

theorem placed_trailer : Placed (dump dict) ((dump dict).length - 32)
    (trailer (widthFor (tableOff dict)) (widthFor (objects dict).length) (objects dict).length
      (tableOff dict)) := by
  have placed := (placed_self (dump dict)).right.right.right
  have start : 0 + magic.length + (objects dict).flatten.length +
      ((offsetsFrom 8 (objects dict)).flatMap (putBe (widthFor (tableOff dict)))).length =
      (dump dict).length - 32 := by
    rw [length_dump, length_table]
    show 0 + 8 + _ + _ = tableOff dict + _ + 32 - 32
    unfold tableOff
    omega
  rw [← start]
  exact placed

theorem offsets_lt (mem : offset ∈ offsetsFrom 8 (objects dict)) :
    offset < tableOff dict :=
  mem_offsetsFrom_lt _ _ (objects_ne_nil dict) _ mem

variable {dict}

theorem openPlist_dump (few : (objects dict).length ≤ 100000)
    (short : (dump dict).length < 2 ^ 63) :
    openPlist (dump dict) = .ok (some (dumpReader dict, 0)) := by
  have length := length_dump dict
  have some : 0 < (objects dict).length := Nat.succ_pos _
  have width := widthFor_bounds (tableOff dict)
  have room : 1 ≤ (objects dict).length * widthFor (tableOff dict) :=
    Nat.mul_pos some width.1
  have table : tableOff dict < 2 ^ 63 := by omega
  have start : Placed (dump dict) 0 [0x62, 0x70, 0x6c, 0x69, 0x73, 0x74, 0x30] := by
    have placed : Placed (dump dict) 0 ([0x62, 0x70, 0x6c, 0x69, 0x73, 0x74, 0x30] ++ [0x30]) :=
      (placed_self (dump dict)).left
    exact placed.left
  have fields : Placed (dump dict) ((dump dict).length - 32 + 6) _ := (placed_trailer dict).right
  have counts : Placed (dump dict) ((dump dict).length - 32 + 8) _ := fields.tail.tail
  have top := counts.right
  have last := top.right
  rw [putBe_length] at top last
  rw [putBe_length] at last
  have eight : ∀ pos value, Placed (dump dict) pos (putBe 8 value) →
      bytesAt (dump dict) pos 8 = .ok (putBe 8 value) := by
    intro pos value placed
    have field := bytesAt_placed placed
    rw [putBe_length] at field
    exact field
  have long : 8 + 32 ≤ (dump dict).length := by
    unfold tableOff at length
    omega
  have opened := openPlist_eq (dumpReader dict).offsets long (bytesAt_placed start)
    (byteAt_placed fields) (byteAt_placed fields.tail) (eight _ _ counts.left)
    (eight _ _ top.left) (eight _ _ last) (toNat_widthFor (objects dict).length)
    (widthFor_bounds _).1 (widthFor_bounds _).2
  have numEq := beNat_putBe_eight (show (objects dict).length < 2 ^ 63 by omega)
  have topEq := beNat_putBe_eight (show 0 < 2 ^ 63 by decide)
  rw [toNat_widthFor, numEq, topEq, beNat_putBe_eight table] at opened
  have fits : tableOff dict + (objects dict).length * widthFor (tableOff dict) =
      (dump dict).length - 32 := by omega
  refine opened width some.ne' few (by omega) ?_ some ?_ ?_
  · rw [fits, sizeT_of_le (by omega) (Nat.sub_le _ 32)]
  · rw [← length_offsetsFrom (objects dict) 8]
    exact readOffsets_placed _ short (placed_table dict)
  · intro offset mem
    obtain ⟨written, inTable, rfl⟩ := mem_map.mp mem
    exact Nat.lt_of_le_of_lt (Nat.mod_le _ _) (offsets_lt dict inTable)

def objectPos (dict : FlatDict) (ref : Nat) : Nat :=
  8 + ((objects dict).take ref).flatten.length

theorem offsets_objectPos (inside : ref < (objects dict).length) :
    (dumpReader dict).offsets[ref]? =
      some (objectPos dict ref % 256 ^ widthFor (tableOff dict)) := by
  unfold dumpReader
  dsimp only
  rw [List.getElem?_map, offsetsFrom_getElem? _ 8 _ inside]
  rfl

theorem offsets_fitting (inside : ref < (objects dict).length)
    (fits : objectPos dict ref < 2 ^ 32) :
    (dumpReader dict).offsets[ref]? = some (objectPos dict ref) := by
  have below : objectPos dict ref < tableOff dict :=
    offsets_lt dict (mem_of_getElem? (offsetsFrom_getElem? _ 8 _ inside))
  rw [offsets_objectPos inside, Nat.mod_eq_of_lt (lt_widthFor below fits)]

theorem readObject_refOf (short : (dump dict).length < 2 ^ 63) (depth : Nat)
    (mem : scalar ∈ flatten dict) (plain : scalar.Plain)
    (fits : objectPos dict (refOf (flatten dict) scalar) + (writeScalar scalar).length < 2 ^ 32) :
    readObject sizeT (dumpReader dict) (depth + 1) (refOf (flatten dict) scalar) true =
      .ok (some (scalar.value, true)) :=
  readObject_scalar short depth (offsets_fitting (refOf_lt mem) (by omega)) plain (by omega)
    ((placed_objects dict).flatten _ _ _ (objects_refOf mem))

def FlatDict.Plain (dict : FlatDict) : Prop :=
  ∀ entry ∈ dict.entries, BmpText entry.1 ∧ entry.2.Plain

def keyRefs (dict : FlatDict) : List Nat :=
  dict.entries.map fun entry => refOf (flatten dict) (.str entry.1)

def valueRefs (dict : FlatDict) : List Nat :=
  dict.entries.map fun entry => refOf (flatten dict) entry.2

variable (dict : FlatDict)

theorem placed_root : Placed (dump dict) 8 (writeSize 0xD0 dict.entries.length ++
    ((keyRefs dict).flatMap (putBe (dumpReader dict).refSize) ++
      (valueRefs dict).flatMap (putBe (dumpReader dict).refSize))) := by
  have root := (placed_objects dict).left
  rw [← length_objects] at root
  unfold keyRefs valueRefs
  rw [flatMap_map, flatMap_map]
  exact root

theorem refOf_fits {dict : FlatDict} (few : (objects dict).length ≤ 100000)
    (mem : scalar ∈ flatten dict) :
    refOf (flatten dict) scalar < 256 ^ (dumpReader dict).refSize :=
  lt_widthFor (refOf_lt mem) (by have := refOf_lt mem; omega)

theorem length_keyRefs : (keyRefs dict).length = dict.entries.length :=
  length_map _

theorem length_valueRefs : (valueRefs dict).length = dict.entries.length :=
  length_map _

theorem references_inside :
    8 + (writeSize 0xD0 dict.entries.length).length +
      dict.entries.length * (2 * (dumpReader dict).refSize) ≤ (dump dict).length := by
  have inside := (placed_root dict).right.inside
  rw [length_append, length_flatMap_putBe, length_flatMap_putBe, length_keyRefs,
    length_valueRefs, ← Nat.mul_add, ← Nat.two_mul] at inside
  exact inside

theorem entries_le_dump : dict.entries.length ≤ (dump dict).length := by
  have inside := references_inside dict
  have wide : 1 ≤ 2 * (dumpReader dict).refSize := by
    have := (dumpReader dict).one_le_refSize
    omega
  have := Nat.le_mul_of_pos_right dict.entries.length wide
  omega

theorem readObject_root {dict : FlatDict} (few : (objects dict).length ≤ 100000)
    (short : (dump dict).length < 2 ^ 63) (count : dict.entries.length < 2 ^ 32) :
    readObject sizeT (dumpReader dict) 32 0 true =
      Result.map .dict <$> entries (readObject sizeT (dumpReader dict) 31) (keyRefs dict)
        (valueRefs dict) true [] := by
  have placed := placed_root dict
  obtain ⟨marker, first, high, size⟩ := readSize_written (by decide) short placed
  rw [Nat.mod_eq_of_lt count] at size
  have refs := dictReferences_placed short
    (by rw [length_keyRefs]; exact entries_le_dump dict)
    ((length_valueRefs dict).trans (length_keyRefs dict).symm)
    (fun ref mem => by
      obtain ⟨entry, inside, rfl⟩ := mem_map.mp mem
      exact refOf_fits few (mem_flatten_key inside))
    (fun ref mem => by
      obtain ⟨entry, inside, rfl⟩ := mem_map.mp mem
      exact refOf_fits few (mem_flatten_value inside))
    placed.right
  rw [length_keyRefs] at refs
  have start : (dumpReader dict).offsets[0]? = some 8 := by
    rw [offsets_fitting (Nat.succ_pos _) (show 8 + 0 < 2 ^ 32 by decide)]
    rfl
  rw [readObject_marker 31 start first]
  unfold readBody
  rw [kind_eq high]
  show withSize sizeT (dump dict) marker (2 * (dumpReader dict).refSize) _ _ = _
  rw [withSize_placed short (references_inside dict) size]
  dsimp only
  rw [show dictReferences (dumpReader dict).d _ _ _ = _ from refs]
  rfl

theorem load_eq_entries {dict : FlatDict} (few : (objects dict).length ≤ 100000)
    (short : (dump dict).length < 2 ^ 63) (count : dict.entries.length < 2 ^ 32) :
    load (dump dict) = (fun result => Option.map Prod.fst (Result.map Value.dict result)) <$>
      entries (readObject sizeT (dumpReader dict) 31) (keyRefs dict) (valueRefs dict) true [] := by
  unfold load
  rw [openPlist_dump few short]
  dsimp only [bind, Except.bind]
  rw [readObject_root few short count]
  cases entries (readObject sizeT (dumpReader dict) 31) (keyRefs dict) (valueRefs dict) true [] <;>
    rfl

theorem load_dump (plain : dict.Plain) (few : (objects dict).length ≤ 100000)
    (small : (dump dict).length < 2 ^ 32) : load (dump dict) = .ok (some dict.value) := by
  have short : (dump dict).length < 2 ^ 63 := by omega
  have read : ∀ scalar ∈ flatten dict, scalar.Plain →
      readObject sizeT (dumpReader dict) 31 (refOf (flatten dict) scalar) true =
        .ok (some (scalar.value, true)) := by
    intro scalar mem plain
    have placed := (placed_objects dict).flatten _ _ _ (objects_refOf mem)
    exact readObject_refOf short 30 mem plain (Nat.lt_of_le_of_lt placed.inside small)
  have all := entries_read (readObject sizeT (dumpReader dict) 31) (refOf (flatten dict))
    dict.entries []
    (fun entry mem => read _ (mem_flatten_key mem) (plain entry mem).1)
    (fun entry mem => read _ (mem_flatten_value mem) (plain entry mem).2)
    dict.ascending (fun entry none => absurd none not_mem_nil)
  rw [load_eq_entries few short (Nat.lt_of_le_of_lt (entries_le_dump dict) small)]
  unfold keyRefs valueRefs
  rw [all]
  rfl

/-- A dictionary of strings, byte strings and 64-bit integers is read back as it was, if its
objects, the root among them, are at most 100000 and its plist is shorter than 2³² bytes. -/
theorem bplist_round_trip (dict : FlatDict) (plain : dict.Plain)
    (few : (objects dict).length ≤ 100000) (small : (dump dict).length < 2 ^ 32) :
    load (dump dict) = .ok (some dict.value) :=
  load_dump dict plain few small

def sampleDict : FlatDict where
  entries := [([0x61], .str [0x61]), ([0x62], .data [0, 255])]
  ascending := by decide

theorem bplist_round_trip_sample :
    (objects sampleDict).length = 4 ∧
      load (dump sampleDict) =
        .ok (some (.dict [([0x61], .str [0x61]), ([0x62], .data [0, 255])])) := by
  have plain : sampleDict.Plain := by
    intro entry mem
    rcases mem_pair.mp mem with rfl | rfl
    · exact ⟨bmpText_of_ascii (ascii_of_all rfl), bmpText_of_ascii (ascii_of_all rfl)⟩
    · exact ⟨bmpText_of_ascii (ascii_of_all rfl), trivial⟩
  exact ⟨by decide, bplist_round_trip sampleDict plain (by decide) (by decide)⟩

end Load

end Scshr.Protocol.Bplist
