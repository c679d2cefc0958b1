import Scshr.Protocol.ClipboardItems

/-! `parse_items` on bytes that were cut short.  The counts in the bytes drive two nested loops
that only the reader's flag ends, so what the loops return is described by what stands in the
bytes: an item is kept if and only if it stands there as a whole. -/
namespace Scshr.Protocol

open Common List

def prefixed (field : Bytes) : Bytes := putBe32 (UInt32.ofNat field.length) ++ field

def writtenAlias (pair : Bytes × Bytes) : Bytes := prefixed pair.1 ++ prefixed pair.2

/-- An item in full; the word behind its type is not looked at. -/
def Item.written (word : UInt32) (item : Item) : Bytes :=
  prefixed item.primaryUti ++ (putBe32 word ++ (putBe32 (UInt32.ofNat item.aliases.length) ++
    (item.aliases.flatMap writtenAlias ++ prefixed item.primaryData)))

/-- All lengths and the number of aliases fit their fields. -/
structure Item.Sized (item : Item) : Prop where
  uti : item.primaryUti.length < 2 ^ 32
  data : item.primaryData.length < 2 ^ 32
  count : item.aliases.length < 2 ^ 32
  aliases : ∀ pair ∈ item.aliases, pair.1.length < 2 ^ 32 ∧ pair.2.length < 2 ^ 32

/-! ## Fields -/

variable {aliases : List (Bytes × Bytes)} {item : Item}

theorem putBe32_be32At (long : 4 ≤ bytes.length) : putBe32 (be32At bytes 0) = bytes.take 4 := by
  obtain ⟨a, b, c, d, rest, rfl⟩ : ∃ a b c d rest, bytes = a :: b :: c :: d :: rest := by
    rcases bytes with _ | ⟨a, _ | ⟨b, _ | ⟨c, _ | ⟨d, rest⟩⟩⟩⟩ <;> simp at long
    exact ⟨a, b, c, d, rest, rfl⟩
  have value : (be32At (a :: b :: c :: d :: rest) 0).toNat = beNat [a, b, c, d] := by
    have field : ((a :: b :: c :: d :: rest).drop 0).take 4 = [a, b, c, d] := rfl
    have hlt : beNat [a, b, c, d] < 2 ^ 32 :=
      Nat.lt_of_lt_of_le (beNat_lt [a, b, c, d]) (show 256 ^ 4 ≤ 2 ^ 32 by decide)
    rw [be32At, field, UInt32.toNat_ofNat', Nat.mod_eq_of_lt hlt]
  have sum : beNat [a, b, c, d] =
      ((a.toNat * 256 + b.toNat) * 256 + c.toNat) * 256 + d.toNat := by
    unfold beNat
    simp only [foldl_cons, foldl_nil]
    omega
  have byte : ∀ (b : UInt8) (value : Nat), value % 256 = b.toNat → UInt8.ofNat value = b := by
    intro b value same
    apply UInt8.toNat_inj.mp
    rw [UInt8.toNat_ofNat']
    exact same
  have a_lt := a.toNat_lt
  have b_lt := b.toNat_lt
  have c_lt := c.toNat_lt
  have d_lt := d.toNat_lt
  unfold putBe32
  rw [value, sum, byte a _ (by omega), byte b _ (by omega), byte c _ (by omega),
    byte d _ (by omega)]
  rfl

namespace ByteReader

variable {r r' : ByteReader} {field : Bytes}

theorem u32_ok (read : r.u32 = (value, r')) (ok : r'.ok = true) :
    r.ok = true ∧ r.rest = putBe32 value ++ r'.rest := by
  unfold u32 at read
  split at read
  · cases read
    cases ok
  next long =>
    cases read
    refine ⟨ok, ?_⟩
    rw [putBe32_be32At (Nat.not_lt.mp long), take_append_drop]

theorem bytes_ok (read : r.bytes n = (field, r')) (ok : r'.ok = true) :
    r.ok = true ∧ field.length = n ∧ r.rest = field ++ r'.rest := by
  unfold bytes at read
  split at read
  · cases read
    cases ok
  next long =>
    cases read
    exact ⟨ok, length_take_of_le (Nat.not_lt.mp long), (take_append_drop n r.rest).symm⟩

theorem lp_ok (read : r.lp = (field, r')) (ok : r'.ok = true) :
    r.ok = true ∧ field.length < 2 ^ 32 ∧ r.rest = prefixed field ++ r'.rest := by
  obtain ⟨ok, size, body⟩ := bytes_ok read ok
  obtain ⟨ok, head⟩ := u32_ok (Prod.mk.eta (p := r.u32)).symm ok
  refine ⟨ok, ?_, ?_⟩
  · rw [size]
    exact r.u32.1.toNat_lt
  · rw [head, body, prefixed, size, UInt32.ofNat_toNat, append_assoc]

theorem lp_written (short : field.length < 2 ^ 32) (rest : Bytes) :
    lp ⟨prefixed field ++ rest, true⟩ = (field, ⟨rest, true⟩) :=
  lp_prefixed field rest true short

end ByteReader

/-! ## Items -/

open ByteReader

variable {r r' : ByteReader}

theorem parseAliases_ok (read : parseAliases n r = (aliases, r')) (ok : r'.ok = true) :
    r.ok = true ∧ aliases.length = n ∧
      (∀ pair ∈ aliases, pair.1.length < 2 ^ 32 ∧ pair.2.length < 2 ^ 32) ∧
      r.rest = aliases.flatMap writtenAlias ++ r'.rest := by
  induction n generalizing r aliases with
  | zero =>
    cases read
    exact ⟨ok, rfl, forall_mem_nil _, rfl⟩
  | succ n ih =>
    unfold parseAliases at read
    split at read
    · rcases name : r.lp with ⟨an, r₁⟩
      rcases value : r₁.lp with ⟨av, r₂⟩
      rcases more : parseAliases n r₂ with ⟨others, r₃⟩
      simp only [name, value, more] at read
      cases read
      obtain ⟨ok₂, count, sized, rest⟩ := ih more
      obtain ⟨ok₁, short', second⟩ := lp_ok value ok₂
      obtain ⟨ok₀, short, first⟩ := lp_ok name ok₁
      refine ⟨ok₀, ?_, forall_mem_cons.mpr ⟨⟨short, short'⟩, sized⟩, ?_⟩
      · rw [length_cons, count]
      · rw [first, second, rest, flatMap_cons, writtenAlias]
        simp only [append_assoc]
    next stopped =>
      cases read
      exact absurd ok stopped

theorem parseAliases_written
    (sized : ∀ pair ∈ aliases, pair.1.length < 2 ^ 32 ∧ pair.2.length < 2 ^ 32) (rest : Bytes) :
    parseAliases aliases.length ⟨aliases.flatMap writtenAlias ++ rest, true⟩ =
      (aliases, ⟨rest, true⟩) := by
  induction aliases with
  | nil => rfl
  | cons pair aliases ih =>
    obtain ⟨⟨name, value⟩, others⟩ := forall_mem_cons.mp sized
    have split : (pair :: aliases).flatMap writtenAlias ++ rest =
        prefixed pair.1 ++ (prefixed pair.2 ++ (aliases.flatMap writtenAlias ++ rest)) := by
      rw [flatMap_cons, writtenAlias]
      simp only [append_assoc]
    rw [split, length_cons, parseAliases, if_pos rfl]
    simp only [lp_written name, lp_written value, ih others]

theorem parseItem_ok (read : parseItem r = (item, r')) (ok : r'.ok = true) :
    r.ok = true ∧ item.Sized ∧ ∃ word, r.rest = item.written word ++ r'.rest := by
  unfold parseItem at read
  rcases type : r.lp with ⟨uti, r₁⟩
  rcases skipped : r₁.u32 with ⟨word, r₂⟩
  rcases counted : r₂.u32 with ⟨ac, r₃⟩
  rcases listed : parseAliases ac.toNat r₃ with ⟨aliases, r₄⟩
  rcases body : r₄.lp with ⟨data, r₅⟩
  simp only [type, skipped, counted, listed, body] at read
  cases read
  obtain ⟨ok₄, dataShort, fifth⟩ := lp_ok body ok
  obtain ⟨ok₃, count, sized, fourth⟩ := parseAliases_ok listed ok₄
  obtain ⟨ok₂, third⟩ := u32_ok counted ok₃
  obtain ⟨ok₁, second⟩ := u32_ok skipped ok₂
  obtain ⟨ok₀, utiShort, first⟩ := lp_ok type ok₁
  have few : aliases.length < 2 ^ 32 := by
    rw [count]
    exact ac.toNat_lt
  refine ⟨ok₀, ⟨utiShort, dataShort, few, sized⟩, word, ?_⟩
  rw [first, second, third, fourth, fifth, Item.written, count, UInt32.ofNat_toNat]
  simp only [append_assoc]

theorem parseItem_written (sized : item.Sized) (word : UInt32) (rest : Bytes) :
    parseItem ⟨item.written word ++ rest, true⟩ = (item, ⟨rest, true⟩) := by
  have count : (UInt32.ofNat item.aliases.length).toNat = item.aliases.length :=
    UInt32.toNat_ofNat_of_lt' sized.count
  unfold parseItem Item.written
  simp only [append_assoc, lp_written sized.uti, u32_putBe32, count,
    parseAliases_written sized.aliases, lp_written sized.data]

variable (n : Nat)

theorem parseItemList_succ (bytes : Bytes) :
    (∃ item word rest, item.Sized ∧ bytes = item.written word ++ rest ∧
      parseItemList (n + 1) ⟨bytes, true⟩ = item :: parseItemList n ⟨rest, true⟩) ∨
    parseItemList (n + 1) ⟨bytes, true⟩ = [] := by
  rcases read : parseItem ⟨bytes, true⟩ with ⟨item, ⟨rest, ok⟩⟩
  have turn : parseItemList (n + 1) ⟨bytes, true⟩ =
      if ok then item :: parseItemList n ⟨rest, ok⟩ else [] := by
    rw [parseItemList, if_pos rfl, read]
  cases ok with
  | true =>
    obtain ⟨_, sized, word, whole⟩ := parseItem_ok read rfl
    exact .inl ⟨item, word, rest, sized, whole, turn⟩
  | false => exact .inr turn

theorem parseItemList_cut (bytes more : Bytes) :
    parseItemList n ⟨bytes, true⟩ <+: parseItemList n ⟨bytes ++ more, true⟩ := by
  induction n generalizing bytes with
  | zero => exact prefix_refl []
  | succ n ih =>
    rcases parseItemList_succ n bytes with ⟨item, word, rest, sized, whole, turn⟩ | turn
    · have longer : parseItemList (n + 1) ⟨bytes ++ more, true⟩ =
          item :: parseItemList n ⟨rest ++ more, true⟩ := by
        rw [whole, append_assoc, parseItemList, if_pos rfl, parseItem_written sized]
        rfl
      rw [turn, longer]
      exact (prefix_cons_inj item).mpr (ih rest)
    · rw [turn]
      exact nil_prefix

/-- The items as they stand in the bytes: one behind the other, each with its word. -/
def writtenItems (entries : List (UInt32 × Item)) : Bytes :=
  entries.flatMap fun entry => entry.2.written entry.1

theorem parseItemList_stand (bytes : Bytes) :
    ∃ entries rest, parseItemList n ⟨bytes, true⟩ = entries.map Prod.snd ∧
      bytes = writtenItems entries ++ rest ∧ (∀ entry ∈ entries, entry.2.Sized) ∧
      entries.length ≤ n := by
  induction n generalizing bytes with
  | zero => exact ⟨[], bytes, rfl, rfl, forall_mem_nil _, Nat.le_refl 0⟩
  | succ n ih =>
    rcases parseItemList_succ n bytes with ⟨item, word, rest, sized, whole, turn⟩ | turn
    · obtain ⟨entries, left, items, stand, each, few⟩ := ih rest
      refine ⟨(word, item) :: entries, left, ?_, ?_, forall_mem_cons.mpr ⟨sized, each⟩,
        Nat.succ_le_succ few⟩
      · rw [turn, items, map_cons]
      · rw [whole, stand, writtenItems, writtenItems, flatMap_cons, append_assoc]
    · exact ⟨[], bytes, turn, rfl, forall_mem_nil _, Nat.zero_le _⟩

/-! ## Turns -/

def aliasTurns : Nat → ByteReader → Nat
  | 0, _ => 0
  | n + 1, r => if r.ok then 1 + aliasTurns n r.lp.2.lp.2 else 0

def itemTurns : Nat → ByteReader → Nat
  | 0, _ => 0
  | n + 1, r =>
    if r.ok then
      let (ac, aliases) := r.lp.2.u32.2.u32
      1 + aliasTurns ac.toNat aliases +
        if (parseItem r).2.ok then itemTurns n (parseItem r).2 else 0
    else 0

def parseTurns (d : Bytes) : Nat :=
  if d.length < 4 then 0
  else
    let (count, r) := ByteReader.u32 ⟨d, true⟩
    itemTurns count.toNat r

namespace ByteReader

theorem u32_rest_le (r : ByteReader) : r.u32.2.rest.length ≤ r.rest.length := by
  unfold u32
  split
  · exact Nat.le_refl _
  · rw [length_drop]
    exact Nat.sub_le _ _

theorem lp_rest_le (r : ByteReader) : r.lp.2.rest.length ≤ r.rest.length := by
  refine Nat.le_trans ?_ (u32_rest_le r)
  unfold lp bytes
  split
  · exact Nat.le_refl _
  · rw [length_drop]
    exact Nat.sub_le _ _

theorem u32_rest_add (ok : r.u32.2.ok = true) :
    r.ok = true ∧ r.u32.2.rest.length + 4 = r.rest.length := by
  obtain ⟨before, whole⟩ := u32_ok (Prod.mk.eta (p := r.u32)).symm ok
  have size := congrArg List.length whole
  rw [length_append, putBe32_length] at size
  exact ⟨before, by omega⟩

theorem lp_rest_add (ok : r.lp.2.ok = true) :
    r.ok = true ∧ r.lp.2.rest.length + 4 ≤ r.rest.length := by
  obtain ⟨before, _, whole⟩ := lp_ok (Prod.mk.eta (p := r.lp)).symm ok
  have size := congrArg List.length whole
  rw [length_append, prefixed, length_append, putBe32_length] at size
  exact ⟨before, by omega⟩

end ByteReader

theorem parseAliases_stopped (stopped : ¬ r.ok = true) :
    parseAliases n r = ([], r) ∧ aliasTurns n r = 0 := by
  cases n with
  | zero => exact ⟨rfl, rfl⟩
  | succ n => exact ⟨if_neg stopped, if_neg stopped⟩

theorem aliasTurns_le (r : ByteReader) :
    8 * aliasTurns n r + (parseAliases n r).2.rest.length ≤ r.rest.length +
      if (parseAliases n r).2.ok then 0 else 8 := by
  induction n generalizing r with
  | zero => exact Nat.le_trans (Nat.le_of_eq (Nat.zero_add _)) (Nat.le_add_right _ _)
  | succ n ih =>
    by_cases running : r.ok = true
    · have turns : aliasTurns (n + 1) r = 1 + aliasTurns n r.lp.2.lp.2 := if_pos running
      have after : (parseAliases (n + 1) r).2 = (parseAliases n r.lp.2.lp.2).2 := by
        rw [parseAliases, if_pos running]
      have rest := ih r.lp.2.lp.2
      rw [turns, after]
      by_cases ok : r.lp.2.lp.2.ok = true
      · obtain ⟨ok₁, second⟩ := lp_rest_add ok
        obtain ⟨_, first⟩ := lp_rest_add ok₁
        omega
      · have second := lp_rest_le r.lp.2
        have first := lp_rest_le r
        obtain ⟨nothing, zero⟩ := parseAliases_stopped n ok
        rw [nothing, zero]
        dsimp only
        rw [if_neg ok]
        omega
    · obtain ⟨nothing, zero⟩ := parseAliases_stopped (n + 1) running
      rw [nothing, zero]
      dsimp only
      omega

/-- An item that was read in full takes eight bytes for itself and for each of its aliases; one
that was not may have cost two turns for nothing. -/
theorem parseItem_turns (r : ByteReader) :
    8 * (1 + aliasTurns r.lp.2.u32.2.u32.1.toNat r.lp.2.u32.2.u32.2) ≤ r.rest.length + 16 ∧
      ((parseItem r).2.ok = true →
        8 * (1 + aliasTurns r.lp.2.u32.2.u32.1.toNat r.lp.2.u32.2.u32.2) +
          (parseItem r).2.rest.length ≤ r.rest.length) := by
  have first := lp_rest_le r
  have second := u32_rest_le r.lp.2
  have third := u32_rest_le r.lp.2.u32.2
  unfold parseItem
  rcases type : r.lp with ⟨uti, r₁⟩
  rcases skipped : r₁.u32 with ⟨word, r₂⟩
  rcases counted : r₂.u32 with ⟨ac, r₃⟩
  rcases listed : parseAliases ac.toNat r₃ with ⟨aliases, r₄⟩
  rcases body : r₄.lp with ⟨data, r₅⟩
  have inner := aliasTurns_le ac.toNat r₃
  simp only [type, skipped, counted, listed, body] at first second third inner ⊢
  constructor
  · split at inner <;> omega
  · intro ok
    have fifth := lp_rest_add (r := r₄)
    have third := u32_rest_add (r := r₂)
    have second := u32_rest_add (r := r₁)
    have first := lp_rest_add (r := r)
    simp only [type, skipped, counted, body] at first second third fifth
    obtain ⟨ok₄, fifth⟩ := fifth ok
    obtain ⟨ok₃, _⟩ := parseAliases_ok listed ok₄
    obtain ⟨ok₂, third⟩ := third ok₃
    obtain ⟨ok₁, second⟩ := second ok₂
    obtain ⟨_, first⟩ := first ok₁
    rw [if_pos ok₄] at inner
    omega

theorem itemTurns_le (r : ByteReader) : 8 * itemTurns n r ≤ r.rest.length + 16 := by
  induction n generalizing r with
  | zero => exact Nat.zero_le _
  | succ n ih =>
    rw [itemTurns]
    split
    · obtain ⟨cut, full⟩ := parseItem_turns r
      have more := ih (parseItem r).2
      dsimp only
      split
      next ok =>
        have whole := full ok
        omega
      next => omega
    · omega

/-! ## The bytes as a whole -/

theorem parseItems_long (long : ¬ d.length < 4) :
    parseItems d = parseItemList (be32At d 0).toNat ⟨d.drop 4, true⟩ := by
  unfold parseItems ByteReader.u32
  rw [if_neg long]
  dsimp only
  rw [if_neg long]

theorem parseTurns_le (d : Bytes) : 8 * parseTurns d ≤ d.length + 16 := by
  unfold parseTurns
  split
  · omega
  · dsimp only
    refine Nat.le_trans (itemTurns_le _ _) (Nat.add_le_add_right ?_ 16)
    exact ByteReader.u32_rest_le ⟨d, true⟩

theorem parseItems_append (d more : Bytes) : parseItems d <+: parseItems (d ++ more) := by
  by_cases short : d.length < 4
  · unfold parseItems
    rw [if_pos short]
    exact nil_prefix
  · have longer : ¬ (d ++ more).length < 4 := by
      rw [length_append]
      omega
    have inside : 4 ≤ d.length := Nat.not_lt.mp short
    rw [parseItems_long short, parseItems_long longer, be32At_append d more 0 inside,
      drop_append_of_le_length inside]
    exact parseItemList_cut (be32At d 0).toNat (d.drop 4) more

theorem parseItems_stand (d : Bytes) :
    ∃ entries : List (UInt32 × Item), parseItems d = entries.map Prod.snd ∧
      (∀ entry ∈ entries, entry.2.Sized) ∧
      (entries = [] ∨ ∃ count rest, d = putBe32 count ++ (writtenItems entries ++ rest) ∧
        entries.length ≤ count.toNat) := by
  by_cases short : d.length < 4
  · refine ⟨[], ?_, forall_mem_nil _, .inl rfl⟩
    unfold parseItems
    rw [if_pos short, map_nil]
  · obtain ⟨entries, rest, items, stand, sized, few⟩ :=
      parseItemList_stand (be32At d 0).toNat (d.drop 4)
    refine ⟨entries, (parseItems_long short).trans items, sized, .inr ⟨_, rest, ?_, few⟩⟩
    rw [putBe32_be32At (Nat.not_lt.mp short), ← stand, take_append_drop]

/-- Cutting the bytes only loses items from the end; both runs enter their loops at most once
for every eight bytes and twice more; and what is returned stands in the bytes in full. -/
theorem parseItems_graceful (d p : Bytes) (cut : p <+: d) :
    parseItems p <+: parseItems d ∧
      8 * parseTurns p ≤ p.length + 16 ∧ 8 * parseTurns d ≤ d.length + 16 ∧
      ∃ entries : List (UInt32 × Item), parseItems d = entries.map Prod.snd ∧
        (∀ entry ∈ entries, entry.2.Sized) ∧
        (entries = [] ∨ ∃ count rest, d = putBe32 count ++ (writtenItems entries ++ rest) ∧
          entries.length ≤ count.toNat) := by
  obtain ⟨more, rfl⟩ := cut
  exact ⟨parseItems_append p more, parseTurns_le p, parseTurns_le _, parseItems_stand _⟩

/-- One of the two announced items is cut in the middle of its data. -/
theorem parseItems_graceful_cut :
    parseItems ([0, 0, 0, 2] ++ Item.written 0 ⟨[0x61], [1, 2], []⟩ ++ [0, 0, 0, 1, 0x62]) <+:
      parseItems ([0, 0, 0, 2] ++ Item.written 0 ⟨[0x61], [1, 2], []⟩ ++
        Item.written 0 ⟨[0x62], [3, 4], []⟩) :=
  (parseItems_graceful _ _ (by decide)).1

end Scshr.Protocol
