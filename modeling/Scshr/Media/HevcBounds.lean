import Scshr.Media.HevcChecked

/-! What the operations of the HEVC header readers need of the bits they read.  The conditions are
on the numbers that the readers without checks decode: codes with fewer than 32 leading zeros, and
sums of 32 bits.  Each checked reader runs as the plain one exactly under its condition; its loops
have constant bounds. -/
namespace Scshr.Media

open Common Lib.Metering
open List hiding getElem?_eq_some_iff

/-! ## The bit reader -/

/-- Fewer than 32 zeros come in front of the first one. -/
def UeFits (r : BitReader) : Prop := (BitReader.countZeros 32 r).1 < 32

/-- A code that fits, and what is to hold behind it. -/
def Ue (holds : Nat → BitReader → Prop) (r : BitReader) : Prop :=
  UeFits r ∧ After BitReader.readUe holds r

/-- So many fields that fit, one behind the other. -/
def Each (parser : BitParser Nat) (fits : BitReader → Prop) : Nat → BitReader → Prop
  | 0, _ => True
  | n + 1, r => fits r ∧ After parser (fun _ => Each parser fits n) r

def Ues (n : Nat) (holds : BitReader → Prop) (r : BitReader) : Prop :=
  Each BitReader.readUe UeFits n r ∧
    After (repeatParser n BitReader.readUe) (fun _ => holds) r

/-- The readers of one byte string. -/
def Over (d : Bytes) (r : BitReader) : Prop := r.d = d

namespace Metered

variable {d : Bytes} {α β : Type} {scope fits : BitReader → Prop} {cost : Nat} {plain : BitParser α}

theorem runs_signedValue (value : Int) :
    Runs scope (signed value) (pure value) (fun _ => InInt32 value) 0 :=
  (Runs.demand fun _ => runs_pure value).congr fun _ _ => (and_iff_left trivial).symm

theorem runs_signed {value : Int} {next : Int → Metered α}
    (rest : Runs scope (next value) plain fits cost) :
    Runs scope (signed value >>= next) plain (fun r => InInt32 value ∧ fits r) cost :=
  ((runs_signedValue value).value rest).of_le (Nat.le_of_eq (Nat.zero_add cost))

theorem runs_shiftBy {amount : Int} {next : Unit → Metered α} (low : 0 ≤ amount)
    (high : amount < 32) (rest : Runs scope (next ()) plain fits cost) :
    Runs scope (shiftBy amount >>= next) plain fits cost :=
  (Runs.demand fun _ => rest).congr fun _ _ => (and_iff_right ⟨low, high⟩).symm

theorem runs_entry {table : List β} {index : Nat} {item : β} {next : β → Metered α}
    (found : table[index]? = some item) (rest : Runs scope (next item) plain fits cost) :
    Runs scope (entry table index >>= next) plain fits cost := by
  rw [entry, if_pos (Int.natCast_nonneg index), Int.toNat_natCast, found]
  simp only [pure_bind]
  exact rest

theorem runs_readIf [Inhabited β] (present : Prop) [Decidable present] {field : Metered β}
    {parser : BitParser β} (runs : Runs scope field parser fits cost) :
    Runs scope (readIf present field) (if present then parser else pure default)
      (fun r => present → fits r) cost := by
  by_cases there : present
  · simp only [readIf, there, if_true, true_imp_iff]
    exact runs
  · simp only [readIf, there, if_false, false_imp_iff]
    exact runs_done default

theorem runs_readIf_true [Inhabited β] (present : Prop) [Decidable present] {field : Metered β}
    {parser : BitParser β} (runs : Runs scope field parser (fun _ => True) cost) :
    Runs scope (readIf present field) (if present then parser else pure default)
      (fun _ => True) cost :=
  (runs_readIf present runs).congr fun _ _ => iff_of_true trivial fun _ => trivial

theorem read1_eq (m : Meter BitReader) :
    read1 m = .ok ((BitReader.read1 m.source).1,
      { m with source := (BitReader.read1 m.source).2 }) := by
  let m' : Meter BitReader := { m with source := { m.source with pos := m.source.pos + 1 } }
  have body : read1 m = (if m.source.d.length ≤ m.source.pos / 8 then pure 0 else do
      let octet ← entry m.source.d (m.source.pos / 8 : Nat)
      shiftBy (7 - m.source.pos % 8 : Nat)
      pure ((octet.toNat >>> (7 - m.source.pos % 8)) % 2) : Metered Nat) m' := rfl
  rw [body, BitReader.read1]
  split
  case isTrue past =>
    rw [getD_eq_getElem?_getD, getElem?_eq_none past, Option.getD_none,
      UInt8.toNat_zero, Nat.zero_shiftRight]
    rfl
  case isFalse inside =>
    have found : m.source.d[m.source.pos / 8]? = some (m.source.d.getD (m.source.pos / 8) 0) := by
      rw [getD_eq_getElem?_getD, getElem?_eq_getElem (Nat.lt_of_not_le inside)]
      rfl
    rw [entry, if_pos (Int.natCast_nonneg _), Int.toNat_natCast, found, shiftBy, demand,
      if_pos (by omega)]
    rfl

theorem runs_read1 : Runs (Over d) read1 BitReader.read1 (fun _ => True) 0 :=
  fun r steps inside => ⟨fun _ => ⟨inside, steps, Nat.le_refl _, read1_eq ⟨r, steps⟩⟩,
    fun no => absurd trivial no⟩

theorem runs_overrun : Runs (Over d) overrun BitReader.overrun (fun _ => True) 0 :=
  fun _ steps inside => ⟨fun _ => ⟨inside, steps, Nat.le_refl _, rfl⟩, fun no => absurd trivial no⟩

theorem runs_readFrom (n value : Nat) :
    Runs (Over d) (readFrom n value) (BitReader.readFrom n value) (fun _ => True) n := by
  induction n generalizing value with
  | zero => exact runs_pure value
  | succ n ih =>
    refine (Runs.turn (runs_read1.andThen fun bit => ih ((value * 2 + bit) % 2 ^ 32))).of_le ?_
    omega

theorem runs_read (n : Int) :
    Runs (Over d) (read n) (BitReader.read n) (fun _ => True) n.toNat :=
  runs_readFrom n.toNat 0

theorem runs_countZeros (left : Nat) :
    Runs (Over d) (countZeros left) (BitReader.countZeros left) (fun _ => True) left := by
  induction left with
  | zero => exact runs_read1.andThen fun _ => runs_pure 0
  | succ left ih =>
    refine (runs_read1.andThen fun bit => (?_ : Runs _ _ _ (fun _ => True) _)).of_le
      (Nat.le_of_eq (Nat.zero_add _))
    split
    · exact ih.map.turn
    · exact runs_done 0

theorem yields_countZeros (left : Nat) : Yields (BitReader.countZeros left) (· ≤ left) := by
  induction left with
  | zero => exact yields_bind _ fun _ => yields_pure (Nat.le_refl 0)
  | succ left ih =>
    refine yields_bind _ fun bit => Yields.ite (fun _ => ?_) fun _ => yields_pure (Nat.zero_le _)
    exact ih.bind fun zeros le => yields_pure (Nat.succ_le_succ le)

theorem runs_readSuffix (n value : Nat) (short : n ≤ 32) :
    Runs (Over d) (readSuffix n value) (BitReader.readFrom n value) (fun _ => True) n := by
  induction n generalizing value with
  | zero => exact runs_pure value
  | succ n ih =>
    have shift (bit : Nat) : Runs (Over d)
        (shiftBy n >>= fun _ => readSuffix n ((value * 2 + bit) % 2 ^ 32))
        (BitReader.readFrom n ((value * 2 + bit) % 2 ^ 32)) (fun _ => True) n :=
      runs_shiftBy (Int.natCast_nonneg n) (by omega) (ih _ (by omega))
    refine (Runs.turn (runs_read1.andThen shift)).of_le ?_
    omega

theorem runs_readUe : Runs (Over d) readUe BitReader.readUe UeFits 64 := by
  have shift (zeros suffix : Nat) : Runs (Over d)
      (shiftBy zeros >>= fun _ => pure ((2 ^ zeros - 1 + suffix) % 2 ^ 32))
      (pure ((2 ^ (zeros % 32) - 1 + suffix) % 2 ^ 32)) (fun _ => zeros < 32) 0 := by
    have checked : Runs (Over d)
        (shiftBy zeros >>= fun _ => pure ((2 ^ zeros - 1 + suffix) % 2 ^ 32))
        (pure ((2 ^ (zeros % 32) - 1 + suffix) % 2 ^ 32)) _ 0 :=
      Runs.demand fun narrow => by
        rw [Nat.mod_eq_of_lt (by omega : zeros < 32)]
        exact runs_pure _
    exact checked.congr fun _ _ =>
      ⟨fun narrow => ⟨by omega, trivial⟩, fun narrow => by omega⟩
  have whole := (runs_countZeros (d := d) 32).bind_of (P := (· ≤ 32))
    (yields_countZeros 32) fun zeros short =>
      ((runs_readSuffix zeros 0 short).andThen (shift zeros)).of_le (Nat.add_le_add_right short 0)
  exact whole.congr fun _ _ => (iff_of_eq (true_and _)).symm

theorem runs_ue {next : Nat → Metered α} {plainNext : Nat → BitParser α}
    {fitsNext : Nat → BitReader → Prop}
    (second : ∀ value, Runs (Over d) (next value) (plainNext value) (fitsNext value) cost) :
    Runs (Over d) (readUe >>= next) (BitReader.readUe >>= plainNext) (Ue fitsNext) (64 + cost) :=
  runs_readUe.bind second

theorem runs_repeatRead {field : Metered Nat} {parser : BitParser Nat}
    (runs : Runs scope field parser fits cost) (n : Nat) :
    Runs scope (repeatRead field n) (repeatParser n parser) (Each parser fits n)
      (n * (cost + 1)) := by
  induction n with
  | zero => exact runs_done []
  | succ n ih =>
    refine (Runs.turn (runs.bind fun value => ih.map)).of_le ?_
    rw [Nat.succ_mul]
    omega

theorem each_true (parser : BitParser Nat) (n : Nat) (r : BitReader) :
    Each parser (fun _ => True) n r := by
  induction n generalizing r with
  | zero => trivial
  | succ n ih => exact ⟨trivial, ih _⟩

theorem runs_repeatRead_true {field : Metered Nat} {parser : BitParser Nat}
    (runs : Runs scope field parser (fun _ => True) cost) (n : Nat) :
    Runs scope (repeatRead field n) (repeatParser n parser) (fun _ => True) (n * (cost + 1)) :=
  (runs_repeatRead runs n).congr fun r _ => iff_of_true trivial (each_true parser n r)

end Metered

/-! ## Reference picture sets -/

def DeltasFit (sign : Int) : Nat → Int → BitReader → Prop
  | 0, _, _ => True
  | n + 1, last, r =>
    Ue (fun minus1 r => InInt32 (int32 minus1 + 1) ∧
      InInt32 (last + sign * (int32 minus1 + 1)) ∧
      After BitReader.read1 (fun _ => DeltasFit sign n (last + sign * (int32 minus1 + 1))) r) r

def ExplicitFits : BitReader → Prop :=
  Ue fun nneg => Ue fun npos =>
    if 64 < nneg ∨ 64 < npos then fun _ => True
    else fun r => DeltasFit (-1) nneg 0 r ∧
      After (readDeltas (-1) nneg 0) (fun _ => DeltasFit 1 npos 0) r

/-- The distance of the prediction, the index of the set it refers to and the sums with the
deltas of that set, if it is there. -/
def PredictionFits (idx deltaIdxMinus1 : Int) (sets : List ShortTermRps) (sign absMinus1 : Nat) :
    Prop :=
  let refIdx := idx - (deltaIdxMinus1 + 1)
  InInt32 (int32 absMinus1 + 1) ∧ InInt32 (deltaIdxMinus1 + 1) ∧ InInt32 refIdx ∧
    (0 ≤ refIdx ∧ refIdx < sets.length → ∀ rd ∈ sets.getD refIdx.toNat [],
      InInt32 (rd.1 + (1 - 2 * (sign : Int)) * (int32 absMinus1 + 1)))

def InterFits (idx numInSps : Int) (sets : List ShortTermRps) (r : BitReader) : Prop :=
  (idx = numInSps → UeFits r) ∧
  After (if idx = numInSps then BitReader.readUe else pure 0) (fun deltaIdxMinus1 =>
    After BitReader.read1 fun sign => Ue fun absMinus1 _ =>
      PredictionFits idx (int32 deltaIdxMinus1) sets sign absMinus1) r

def SetFits (idx numInSps : Int) (sets : List ShortTermRps) : BitReader → Prop :=
  After (if idx ≠ 0 then BitReader.read1 else pure 0) fun inter =>
    if inter ≠ 0 then InterFits idx numInSps sets else ExplicitFits

def SetsFit (numInSps : Int) : Nat → List ShortTermRps → BitReader → Prop
  | 0, _, _ => True
  | left + 1, sets, r => SetFits sets.length numInSps sets r ∧
      After (parseStRefPicSet sets.length numInSps sets)
        (fun rps => SetsFit numInSps left (sets ++ [rps])) r

namespace Metered

variable {d : Bytes} {n : Nat} {ref : ShortTermRps} {rpsDelta : Int} {flags : List (Bool × Bool)}
  {sets : List ShortTermRps} {idx numInSps : Int}

theorem runs_readInterFlags (n : Nat) :
    Runs (Over d) (readInterFlags n) (Media.readInterFlags n) (fun _ => True) n := by
  induction n with
  | zero => exact runs_pure []
  | succ n ih =>
    have second (used : Nat) : Runs (Over d)
        (if used = 0 then read1 else pure 1 : Metered Nat)
        (if used = 0 then BitReader.read1 else pure 1) (fun _ => True) 0 := by
      split
      · exact runs_read1
      · exact runs_pure 1
    have whole := Runs.turn ((runs_read1 (d := d)).andThen fun used =>
      (second used).andThen fun useDelta =>
        ih.map (f := fun flags => (decide (used ≠ 0), decide (useDelta ≠ 0)) :: flags))
    simp only [ite_bind] at whole
    exact whole.of_le (by omega)

theorem yields_readInterFlags (n : Nat) :
    Yields (Media.readInterFlags n) (·.length = n) := by
  induction n with
  | zero => exact yields_pure rfl
  | succ n ih =>
    refine yields_bind _ fun used => Yields.ite (fun _ => ?_) fun _ => ?_
    all_goals
      exact yields_bind _ fun useDelta => ih.bind fun flags length =>
        yields_pure (congrArg (· + 1) length)

def keptDeltas (deltas : List (Int × Bool × Bool)) : ShortTermRps :=
  deltas.filterMap fun (d, used, useDelta) => if d < 0 ∧ useDelta then some (d, used) else none

theorem keptDeltas_cons (d : Int) (flag : Bool × Bool) (deltas : List (Int × Bool × Bool)) :
    keptDeltas ((d, flag) :: deltas) =
      if d < 0 ∧ flag.2 then (d, flag.1) :: keptDeltas deltas else keptDeltas deltas := by
  by_cases kept : d < 0 ∧ flag.2 = true
  · rw [if_pos kept]
    exact filterMap_cons_some (if_pos kept)
  · rw [if_neg kept]
    exact filterMap_cons_none (if_neg kept)

/-- The loop has the last `left` entries of the flags still ahead, and the entries of the
reference set below `left`. -/
theorem runs_interDeltas (rpsDelta : Int) (count : ref.length < flags.length) (left : Nat)
    (inside : left ≤ ref.length) :
    Runs (Over d) (interDeltas ref rpsDelta flags left)
      (pure (keptDeltas ((((ref.take left).reverse.map fun rd => rd.1 + rpsDelta)).zip
        (flags.drop (ref.length - left)))))
      (fun _ => ∀ rd ∈ ref.take left, InInt32 (rd.1 + rpsDelta)) left := by
  induction left with
  | zero => exact (runs_pure []).congr fun _ _ => by simp
  | succ left ih =>
    have here : left < ref.length := inside
    have there : ref.length - 1 - left < flags.length := by omega
    have drop : flags.drop (ref.length - (left + 1)) =
        flags[ref.length - 1 - left] :: flags.drop (ref.length - left) := by
      have next : ref.length - (left + 1) = ref.length - 1 - left := by omega
      have after : ref.length - 1 - left + 1 = ref.length - left := by omega
      rw [next, drop_eq_getElem_cons there, after]
    rw [take_succ_eq_append_getElem here, reverse_append, reverse_singleton,
      singleton_append, map_cons, drop, zip_cons_cons, keptDeltas_cons]
    refine (Runs.turn (runs_entry (getElem?_eq_getElem here)
      (runs_entry (getElem?_eq_getElem there)
        (runs_signed (ih (Nat.le_of_lt here)).map)))).congr fun r _ => ?_
    simp only [forall_mem_append, forall_mem_singleton]
    exact and_comm

theorem interDeltas_eq (count : flags.length = ref.length + 1)
    (found : flags[ref.length]? = some last) :
    Media.interDeltas ref rpsDelta flags =
      keptDeltas ((ref.reverse.map fun rd => rd.1 + rpsDelta).zip flags) ++
        if rpsDelta < 0 ∧ last.2 then [(rpsDelta, last.1)] else [] := by
  obtain ⟨inside, rfl⟩ := getElem?_eq_some_iff.mp found
  have ends : flags = flags.take ref.length ++ [flags[ref.length]] := by
    rw [← take_succ_eq_append_getElem inside, ← count, take_length]
  have lengths : (ref.reverse.map fun rd => rd.1 + rpsDelta).length =
      (flags.take ref.length).length := by
    rw [length_map, length_reverse, length_take, Nat.min_eq_left (by omega)]
  have all : ((ref.reverse.map fun rd => rd.1 + rpsDelta) ++ [rpsDelta]).zip flags =
      (ref.reverse.map fun rd => rd.1 + rpsDelta).zip (flags.take ref.length) ++
        [(rpsDelta, flags[ref.length])] := by
    nth_rewrite 1 [ends]
    rw [zip_append lengths]
    rfl
  have front : (ref.reverse.map fun rd => rd.1 + rpsDelta).zip flags =
      (ref.reverse.map fun rd => rd.1 + rpsDelta).zip (flags.take ref.length) := by
    nth_rewrite 1 [ends]
    rw [← append_nil (ref.reverse.map fun rd => rd.1 + rpsDelta),
      zip_append lengths, zip_nil_left, append_nil, append_nil]
  change keptDeltas _ = _
  rw [all, front, keptDeltas, filterMap_append]
  congr 1
  exact keptDeltas_cons rpsDelta flags[ref.length] []

theorem runs_predictRps (short : ref.length ≤ n) :
    Runs (Over d) (predictRps ref rpsDelta)
      (Media.readInterFlags (ref.length + 1) >>= fun flags =>
        pure (Media.interDeltas ref rpsDelta flags))
      (fun _ => ∀ rd ∈ ref, InInt32 (rd.1 + rpsDelta)) (2 * n + 1) := by
  have rest (flags : List (Bool × Bool)) (count : flags.length = ref.length + 1) :
      Runs (Over d) (interDeltas ref rpsDelta flags ref.length >>= fun deltas =>
          entry flags ref.length >>= fun last =>
            pure (deltas ++ if rpsDelta < 0 ∧ last.2 then [(rpsDelta, last.1)] else []))
        (pure (Media.interDeltas ref rpsDelta flags))
        (fun _ => ∀ rd ∈ ref, InInt32 (rd.1 + rpsDelta)) n := by
    have found := getElem?_eq_getElem (l := flags) (i := ref.length) (by omega)
    have deltas := runs_interDeltas (d := d) rpsDelta (by omega : ref.length < flags.length)
      ref.length (Nat.le_refl _)
    rw [Nat.sub_self, drop_zero, take_length] at deltas
    rw [interDeltas_eq count found]
    refine Runs.of_le (?_ : Runs _ _ _ _ (ref.length + 0)) short
    refine Runs.congr ?_ fun _ _ => (and_iff_left trivial).symm
    exact deltas.value (runs_entry found (runs_pure _))
  refine ((runs_readInterFlags (ref.length + 1)).bind_of (yields_readInterFlags _) rest).congr
    (fun r _ => ?_) |>.of_le (by omega)
  exact (iff_of_eq (true_and _)).symm

theorem runs_readDeltas (sign : Int) (n : Nat) (last : Int) :
    Runs (Over d) (readDeltas sign n last) (Media.readDeltas sign n last)
      (DeltasFit sign n last) (n * 65) := by
  induction n generalizing last with
  | zero => exact runs_pure []
  | succ n ih =>
    refine (Runs.turn (runs_readUe.bind fun minus1 => runs_signed (runs_signed
      (runs_read1.andThen fun used => (ih _).map)))).of_le ?_
    omega

theorem runs_parseExplicitRps :
    Runs (Over d) parseExplicitRps Media.parseExplicitRps ExplicitFits 8448 := by
  unfold parseExplicitRps Media.parseExplicitRps ExplicitFits
  apply Runs.of_le
  case runs =>
    apply runs_ue
    intro nneg
    apply runs_ue
    intro npos
    apply Runs.ite
    case no =>
      intro few
      refine ((runs_readDeltas (-1) nneg 0).bind fun negative =>
        (runs_readDeltas 1 npos 0).map).of_le (?_ : _ ≤ 8320)
      omega
    case yes => exact fun _ => runs_done []
  case le => decide

theorem yields_read1 : Yields BitReader.read1 (· < 2) := fun _ => Nat.mod_lt _ (by decide)

theorem int32_ge (value : Nat) : -2 ^ 31 ≤ int32 value := by
  unfold int32
  split <;> omega

theorem inInt32_signed (sign absMinus1 : Nat) (bit : sign < 2)
    (fits : InInt32 (int32 absMinus1 + 1)) :
    InInt32 ((1 - 2 * (sign : Int)) * (int32 absMinus1 + 1)) := by
  have low := int32_ge absMinus1
  unfold InInt32 at fits ⊢
  obtain rfl | rfl : sign = 0 ∨ sign = 1 := by omega
  · omega
  · omega

theorem runs_predicted (short : ∀ rps ∈ sets, rps.length ≤ n) {refIdx : Int}
    (inside : ¬ (refIdx < 0 ∨ (sets.length : Int) ≤ refIdx)) :
    Runs (Over d) (entry sets refIdx >>= fun ref => predictRps ref rpsDelta)
      (Media.readInterFlags ((sets.getD refIdx.toNat []).length + 1) >>= fun flags =>
        pure (Media.interDeltas (sets.getD refIdx.toNat []) rpsDelta flags))
      (fun _ => ∀ rd ∈ sets.getD refIdx.toNat [], InInt32 (rd.1 + rpsDelta)) (2 * n + 1) := by
  have index : refIdx = (refIdx.toNat : Int) := by omega
  have there : refIdx.toNat < sets.length := by omega
  have found : sets[refIdx.toNat]? = some (sets.getD refIdx.toNat []) := by
    rw [getD_eq_getElem?_getD, getElem?_eq_getElem there]
    rfl
  rw [index]
  exact runs_entry found (runs_predictRps (short _ (mem_of_getElem? found)))

theorem runs_parseInterRps (short : ∀ rps ∈ sets, rps.length ≤ n) :
    Runs (Over d) (parseInterRps idx numInSps sets) (Media.parseInterRps idx numInSps sets)
      (InterFits idx numInSps sets) (2 * n + 129) := by
  unfold parseInterRps Media.parseInterRps InterFits
  apply Runs.of_le
  case runs =>
    apply (runs_readIf (idx = numInSps) runs_readUe).bindIf
    intro deltaIdxMinus1
    apply runs_read1.andThen_of yields_read1
    intro sign bit
    apply runs_ue
    intro absMinus1
    refine (runs_signed (runs_signed (runs_signed (runs_signed (Runs.ite
      (fun _ => runs_done []) (runs_predicted short)))))).congr fun r _ => ?_
    unfold PredictionFits
    constructor
    · rintro ⟨fitsAbs, fitsIdx, fitsRef, sums⟩
      refine ⟨fitsAbs, inInt32_signed sign absMinus1 bit fitsAbs, fitsIdx, fitsRef, ?_⟩
      split
      · trivial
      · exact sums (by omega)
    · rintro ⟨fitsAbs, -, fitsIdx, fitsRef, sums⟩
      refine ⟨fitsAbs, fitsIdx, fitsRef, fun inside => ?_⟩
      rw [if_neg (by omega)] at sums
      exact sums
  case le => omega

theorem runs_parseStRefPicSet (short : ∀ rps ∈ sets, rps.length ≤ n) (few : n ≤ 192) :
    Runs (Over d) (parseStRefPicSet idx numInSps sets)
      (Media.parseStRefPicSet idx numInSps sets) (SetFits idx numInSps sets) 8448 := by
  unfold parseStRefPicSet Media.parseStRefPicSet SetFits
  apply Runs.of_le
  case runs =>
    apply (runs_readIf_true (idx ≠ 0) runs_read1).join
    intro inter
    apply Runs.ite
    case no => exact fun _ => runs_parseExplicitRps
    case yes => exact fun _ => (runs_parseInterRps short).of_le (by omega)
  case le => decide

theorem yields_readDeltas (sign : Int) (n : Nat) (last : Int) :
    Yields (Media.readDeltas sign n last) (·.length = n) := by
  induction n generalizing last with
  | zero => exact yields_pure rfl
  | succ n ih =>
    exact yields_bind _ fun minus1 => yields_bind _ fun used => (ih _).bind fun deltas length =>
      yields_pure (congrArg (· + 1) length)

theorem length_interDeltas_le (ref : ShortTermRps) (rpsDelta : Int) (flags : List (Bool × Bool)) :
    (Media.interDeltas ref rpsDelta flags).length ≤ ref.length + 1 := by
  refine (length_filterMap_le _ _).trans ?_
  rw [length_zip, length_append, length_map, length_reverse,
    length_singleton]
  omega

theorem length_getD_le (short : ∀ rps ∈ sets, rps.length ≤ n) (i : Nat) :
    (sets.getD i []).length ≤ n := by
  rw [getD_eq_getElem?_getD]
  cases found : sets[i]? with
  | none => exact Nat.zero_le _
  | some rps => exact short rps (mem_of_getElem? found)

theorem yields_parseStRefPicSet (short : ∀ rps ∈ sets, rps.length ≤ n) (wide : 128 ≤ n) :
    Yields (Media.parseStRefPicSet idx numInSps sets) (·.length ≤ n + 1) := by
  have explicit : Yields Media.parseExplicitRps (·.length ≤ n + 1) := by
    refine yields_bind _ fun nneg => yields_bind _ fun npos => ?_
    refine Yields.ite (fun _ => yields_pure (Nat.zero_le _)) fun few => ?_
    refine (yields_readDeltas (-1) nneg 0).bind fun negative front => ?_
    refine (yields_readDeltas 1 npos 0).bind fun positive back => yields_pure ?_
    rw [length_append]
    omega
  have inter : Yields (Media.parseInterRps idx numInSps sets) (·.length ≤ n + 1) := by
    refine Yields.ite (fun _ => yields_bind _ fun deltaIdx => ?_) fun _ =>
      yields_bind _ fun deltaIdx => ?_
    all_goals
      refine yields_bind _ fun sign => yields_bind _ fun absMinus1 => ?_
      refine Yields.ite (fun _ => yields_pure (Nat.zero_le _)) fun inside => ?_
      refine yields_bind _ fun flags => yields_pure ?_
      exact (length_interDeltas_le _ _ flags).trans (Nat.succ_le_succ (length_getD_le short _))
  refine Yields.ite (fun _ => yields_bind _ fun flag => ?_) fun _ => yields_bind _ fun flag => ?_
  all_goals exact Yields.ite (fun _ => inter) fun _ => explicit

/-- Each set is at most one entry longer than the longest one in front of it. -/
def Growing (sets : List ShortTermRps) : Prop := ∀ rps ∈ sets, rps.length ≤ 128 + sets.length

theorem Growing.concat (growing : Growing sets) (short : rps.length ≤ 128 + sets.length + 1) :
    Growing (sets ++ [rps]) := by
  intro other mem
  rw [length_append, length_singleton]
  rcases mem_append.mp mem with old | new
  · have bound := growing other old
    omega
  · rw [mem_singleton.mp new]
    omega

theorem runs_parseStRefPicSets (growing : Growing sets) (few : sets.length + left ≤ 64) :
    Runs (Over d) (parseStRefPicSets numInSps left sets)
      (Media.parseStRefPicSets numInSps left sets) (SetsFit numInSps left sets)
      (left * 8449) := by
  induction left generalizing sets with
  | zero => exact runs_pure sets
  | succ left ih =>
    refine (Runs.turn ((runs_parseStRefPicSet growing (by omega)).bind_of
      (yields_parseStRefPicSet growing (by omega)) fun rps short =>
        ih (growing.concat short) ?_)).of_le ?_
    · rw [length_append, length_singleton]
      omega
    · omega

theorem yields_parseStRefPicSets (numInSps : Int) (left : Nat) (growing : Growing sets)
    (few : sets.length + left ≤ 64) :
    Yields (Media.parseStRefPicSets numInSps left sets) fun sets =>
      Growing sets ∧ sets.length ≤ 64 := by
  induction left generalizing sets with
  | zero => exact yields_pure ⟨growing, few⟩
  | succ left ih =>
    refine (yields_parseStRefPicSet growing (by omega)).bind fun rps short => ?_
    refine ih (growing.concat short) ?_
    rw [length_append, length_singleton]
    omega

end Metered

end Scshr.Media
