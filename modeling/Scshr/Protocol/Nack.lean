import Mathlib.Data.Finset.Sort
import Scshr.Common.Bytes

/-! Generic NACK feedback (`build_nack` of `protocol/rtcp.cpp`).  A feedback item names a
packet id and sixteen followers of it in a bitmap; the numbers of a set are taken in ascending
order, and a number out of reach of the current item starts the next one. -/
namespace Scshr.Protocol

open Common List

structure Fci where
  pid : UInt16
  blp : UInt16
  deriving DecidableEq, Repr

/-- The inner loop: the bitmap for the numbers up to sixteen behind `pid`, and what is left. -/
def gatherBlp (pid blp : UInt16) : List UInt16 → UInt16 × List UInt16
  | [] => (blp, [])
  | seq :: rest =>
    let diff := seq - pid
    if 1 ≤ diff ∧ diff ≤ 16 then gatherBlp pid (blp ||| (1 <<< (diff - 1))) rest
    else (blp, seq :: rest)

variable {pid blp seq : UInt16}

theorem gatherBlp_suffix (pid blp : UInt16) (seqs : List UInt16) :
    (gatherBlp pid blp seqs).2 <:+ seqs := by
  induction seqs generalizing blp with
  | nil => exact suffix_refl []
  | cons seq rest ih =>
    unfold gatherBlp
    dsimp only
    split
    · exact (ih _).trans (suffix_cons seq rest)
    · exact suffix_refl _

def nackFcis : List UInt16 → List Fci
  | [] => []
  | pid :: rest => ⟨pid, (gatherBlp pid 0 rest).1⟩ :: nackFcis (gatherBlp pid 0 rest).2
termination_by seqs => seqs.length
decreasing_by exact Nat.lt_succ_of_le (gatherBlp_suffix pid 0 rest).length_le

def Fci.bytes (fci : Fci) : Bytes := putBe16 fci.pid.toNat ++ putBe16 fci.blp.toNat

/-- A `std::set` is walked in ascending order. -/
def buildNack (sender media : UInt32) (lost : Finset UInt16) : Bytes :=
  if lost = ∅ then []
  else
    let fcis := (nackFcis (lost.sort (· ≤ ·))).flatMap Fci.bytes
    let nFcis := UInt16.ofNat (fcis.length / 4)
    [0x80 ||| 1, 205] ++ putBe16 (2 + nFcis.toNat) ++ putBe32 sender ++ putBe32 media ++ fcis

/-! ## What a receiver reads -/

/-- The followers a bitmap names: bit `i` stands for the number `i + 1` behind the id. -/
def followers (pid blp : UInt16) : List UInt16 :=
  ((range 16).filter fun bit => blp.toNat.testBit bit).map fun bit =>
    pid + UInt16.ofNat (bit + 1)

def Fci.expand (fci : Fci) : List UInt16 := fci.pid :: followers fci.pid fci.blp

def readFcis : Bytes → List Fci
  | pidHigh :: pidLow :: blpHigh :: blpLow :: rest =>
    ⟨UInt16.ofNat (be16 pidHigh pidLow), UInt16.ofNat (be16 blpHigh blpLow)⟩ :: readFcis rest
  | _ => []

def nackNumbers (packet : Bytes) : List UInt16 := (readFcis (packet.drop 12)).flatMap Fci.expand

def rtcpLength (packet : Bytes) : Nat := be16At packet 2

/-! ## The bitmap -/

theorem testBit_setBit (blp diff : UInt16) (bit : Nat) (low : 1 ≤ diff) (high : diff ≤ 16) :
    (blp ||| (1 <<< (diff - 1))).toNat.testBit bit =
      (blp.toNat.testBit bit || decide (bit + 1 = diff.toNat)) := by
  have atLeast : 1 ≤ diff.toNat := UInt16.le_iff_toNat_le.mp low
  have atMost : diff.toNat ≤ 16 := UInt16.le_iff_toNat_le.mp high
  have shift : (diff - 1).toNat = diff.toNat - 1 := UInt16.toNat_sub_of_le _ _ low
  have power : 2 ^ (diff.toNat - 1) < 2 ^ 16 := Nat.pow_lt_pow_right (by decide) (by omega)
  have single : ((1 : UInt16) <<< (diff - 1)).toNat = 2 ^ (diff.toNat - 1) := by
    rw [UInt16.toNat_shiftLeft, shift, Nat.mod_eq_of_lt (by omega : diff.toNat - 1 < 16)]
    rw [UInt16.toNat_one, Nat.one_shiftLeft, Nat.mod_eq_of_lt power]
  have moved : decide (diff.toNat - 1 = bit) = decide (bit + 1 = diff.toNat) :=
    decide_eq_decide.mpr (by omega)
  rw [UInt16.toNat_or, single, Nat.testBit_or, Nat.testBit_two_pow, moved]

theorem mem_followers :
    seq ∈ followers pid blp ↔
      ∃ bit < 16, blp.toNat.testBit bit = true ∧ pid + UInt16.ofNat (bit + 1) = seq := by
  unfold followers
  simp only [mem_map, mem_filter, mem_range, and_assoc]

theorem mem_followers_setBit (low : 1 ≤ number - pid) (high : number - pid ≤ 16) :
    seq ∈ followers pid (blp ||| (1 <<< (number - pid - 1))) ↔
      seq ∈ followers pid blp ∨ seq = number := by
  have atLeast : 1 ≤ (number - pid).toNat := UInt16.le_iff_toNat_le.mp low
  have atMost : (number - pid).toNat ≤ 16 := UInt16.le_iff_toNat_le.mp high
  have reached : pid + UInt16.ofNat (number - pid).toNat = number := by
    rw [UInt16.ofNat_toNat, UInt16.add_comm, UInt16.sub_add_cancel]
  rw [mem_followers, mem_followers]
  constructor
  · rintro ⟨bit, inside, set, rfl⟩
    rw [testBit_setBit _ _ _ low high, Bool.or_eq_true, decide_eq_true_eq] at set
    rcases set with before | new
    · exact .inl ⟨bit, inside, before, rfl⟩
    · rw [new, reached]
      exact .inr rfl
  · rintro (⟨bit, inside, set, rfl⟩ | rfl)
    · refine ⟨bit, inside, ?_, rfl⟩
      rw [testBit_setBit _ _ _ low high, set, Bool.true_or]
    · have last : (seq - pid).toNat - 1 + 1 = (seq - pid).toNat := by omega
      refine ⟨(seq - pid).toNat - 1, by omega, ?_, ?_⟩
      · rw [testBit_setBit _ _ _ low high, decide_eq_true last, Bool.or_true]
      · rw [last, reached]

theorem followers_zero (pid : UInt16) : followers pid 0 = [] := by
  unfold followers
  have none : ((range 16).filter fun bit => (0 : UInt16).toNat.testBit bit) = [] := by decide
  rw [none, map_nil]

theorem nodup_expand (fci : Fci) : fci.expand.Nodup := by
  have apart : ∀ left right : Nat, left ≤ 16 → right ≤ 16 →
      fci.pid + UInt16.ofNat left = fci.pid + UInt16.ofNat right → left = right := by
    intro left right smallLeft smallRight same
    have equal := congrArg UInt16.toNat ((UInt16.add_right_inj fci.pid).mp same)
    rw [UInt16.toNat_ofNat', UInt16.toNat_ofNat'] at equal
    omega
  refine nodup_cons.mpr ⟨?_, ?_⟩
  · intro named
    obtain ⟨bit, inside, -, same⟩ := mem_followers.mp named
    have zero := apart (bit + 1) 0 (by omega) (by omega) (same.trans (UInt16.add_zero _).symm)
    omega
  · apply List.Nodup.map_on _ (nodup_range.filter _)
    intro left inLeft right inRight same
    have smallLeft := mem_range.mp (mem_filter.mp inLeft).1
    have smallRight := mem_range.mp (mem_filter.mp inRight).1
    have equal := apart (left + 1) (right + 1) (by omega) (by omega) same
    omega

/-! ## The loops -/

theorem gatherBlp_taken (pid blp : UInt16) (seqs : List UInt16) :
    ∃ taken, seqs = taken ++ (gatherBlp pid blp seqs).2 ∧
      ∀ seq, seq ∈ followers pid (gatherBlp pid blp seqs).1 ↔
        seq ∈ followers pid blp ∨ seq ∈ taken := by
  induction seqs generalizing blp with
  | nil => exact ⟨[], rfl, fun seq => (or_iff_left not_mem_nil).symm⟩
  | cons number rest ih =>
    unfold gatherBlp
    dsimp only
    split
    next near =>
      obtain ⟨taken, split, members⟩ := ih (blp ||| (1 <<< (number - pid - 1)))
      refine ⟨number :: taken, congrArg (number :: ·) split, ?_⟩
      intro seq
      rw [members seq, mem_followers_setBit near.1 near.2, mem_cons, or_assoc]
    next => exact ⟨[], rfl, fun seq => (or_iff_left not_mem_nil).symm⟩

theorem gatherBlp_head (left : (gatherBlp pid blp seqs).2 = first :: rest) :
    ¬ (1 ≤ first - pid ∧ first - pid ≤ 16) := by
  induction seqs generalizing blp with
  | nil => cases left
  | cons number seqs ih =>
    unfold gatherBlp at left
    dsimp only at left
    split at left
    next => exact ih left
    next far =>
      obtain rfl := (cons.inj left).1
      exact far

theorem nackFcis_expand (seqs : List UInt16) (distinct : seqs.Nodup) :
    ((nackFcis seqs).flatMap Fci.expand).Nodup ∧
      ∀ seq, seq ∈ (nackFcis seqs).flatMap Fci.expand ↔ seq ∈ seqs := by
  induction seqs using nackFcis.induct with
  | case1 => exact ⟨by simp [nackFcis], fun seq => by simp [nackFcis]⟩
  | case2 pid rest ih =>
    obtain ⟨taken, split, members⟩ := gatherBlp_taken pid 0 rest
    rw [nackFcis, flatMap_cons]
    generalize gatherBlp pid 0 rest = gathered at *
    subst split
    obtain ⟨fresh, parts⟩ := nodup_cons.mp distinct
    obtain ⟨-, later, disjoint⟩ := nodup_append'.mp parts
    obtain ⟨nodup, covers⟩ := ih later
    have item : ∀ seq, seq ∈ Fci.expand ⟨pid, gathered.1⟩ ↔ seq = pid ∨ seq ∈ taken := by
      intro seq
      rw [Fci.expand, mem_cons, members, followers_zero, or_iff_right not_mem_nil]
    constructor
    · refine nodup_append'.mpr ⟨nodup_expand _, nodup, ?_⟩
      intro seq inItem inRest
      rcases (item seq).mp inItem with rfl | inTaken
      · exact fresh (mem_append_right taken ((covers seq).mp inRest))
      · exact disjoint inTaken ((covers seq).mp inRest)
    · intro seq
      rw [mem_append, item, covers, mem_cons, mem_append, or_assoc]

theorem nackFcis_length (seqs : List UInt16)
    (ascending : seqs.Pairwise fun left right => left.toNat < right.toNat) :
    (nackFcis seqs).length ≤ 3856 := by
  suffices bound : ∀ seq ∈ seqs.head?, 17 * (nackFcis seqs).length + seq.toNat ≤ 65552 by
    cases seqs with
    | nil => simp [nackFcis]
    | cons seq rest =>
      have := bound seq rfl
      omega
  induction seqs using nackFcis.induct with
  | case1 => exact fun seq none => absurd none (Option.not_mem_none seq)
  | case2 pid rest ih =>
    intro seq first
    obtain rfl : pid = seq := Option.some.inj first
    obtain ⟨above, later⟩ := pairwise_cons.mp ascending
    have inRest := gatherBlp_suffix pid 0 rest
    have next := ih (later.sublist inRest.sublist)
    rw [nackFcis, length_cons]
    have small := pid.toNat_lt
    cases left : (gatherBlp pid 0 rest).2 with
    | nil =>
      simp only [nackFcis, length_nil]
      omega
    | cons head tail =>
      have far := gatherBlp_head left
      rw [left] at next inRest
      have bound := next head rfl
      have greater := above head (inRest.mem mem_cons_self)
      rw [UInt16.le_iff_toNat_le, UInt16.le_iff_toNat_le, UInt16.toNat_sub] at far
      have headSmall := head.toNat_lt
      simp only [UInt16.toNat_one, UInt16.reduceToNat] at far
      omega

/-! ## The packet -/

theorem readFcis_flatMap (fcis : List Fci) : readFcis (fcis.flatMap Fci.bytes) = fcis := by
  induction fcis with
  | nil => rfl
  | cons fci fcis ih =>
    rw [flatMap_cons]
    change ⟨_, _⟩ :: readFcis (fcis.flatMap Fci.bytes) = fci :: fcis
    rw [ih, be16_ofNat, be16_ofNat]
    simp

theorem length_flatMap_bytes (fcis : List Fci) :
    (fcis.flatMap Fci.bytes).length = 4 * fcis.length := by
  induction fcis with
  | nil => rfl
  | cons fci fcis ih =>
    rw [flatMap_cons, length_append, ih, length_cons]
    change 4 + 4 * fcis.length = _
    omega

theorem buildNack_eq (sender media : UInt32) (some : lost.Nonempty)
    (few : (nackFcis (lost.sort (· ≤ ·))).length ≤ 3856) :
    buildNack sender media lost =
      ([0x81, 205] ++ putBe16 (2 + (nackFcis (lost.sort (· ≤ ·))).length) ++ putBe32 sender ++
        putBe32 media) ++ (nackFcis (lost.sort (· ≤ ·))).flatMap Fci.bytes := by
  unfold buildNack
  rw [if_neg some.ne_empty]
  dsimp only
  rw [length_flatMap_bytes, Nat.mul_div_cancel_left _ (by decide : 0 < 4), UInt16.toNat_ofNat',
    Nat.mod_eq_of_lt (by omega)]
  rfl

theorem sort_ascending (lost : Finset UInt16) :
    (lost.sort (· ≤ ·)).Pairwise fun left right => left.toNat < right.toNat := by
  apply ((lost.pairwise_sort (· ≤ ·)).and (lost.sort_nodup (· ≤ ·))).imp
  intro left right ordered
  apply Nat.lt_of_le_of_ne (UInt16.le_iff_toNat_le.mp ordered.1)
  intro same
  exact ordered.2 (UInt16.toNat_inj.mp same)

/-- A feedback packet asks for the numbers of the set, for each of them once, and its length
field counts its words but one. -/
theorem buildNack_exact (sender media : UInt32) (lost : Finset UInt16) (some : lost.Nonempty) :
    (nackNumbers (buildNack sender media lost)).Nodup ∧
      (nackNumbers (buildNack sender media lost)).toFinset = lost ∧
      (buildNack sender media lost).length =
        4 * (rtcpLength (buildNack sender media lost) + 1) := by
  have few := nackFcis_length _ (sort_ascending lost)
  obtain ⟨nodup, covers⟩ := nackFcis_expand _ (lost.sort_nodup (· ≤ ·))
  rw [buildNack_eq sender media some few]
  generalize nackFcis (lost.sort (· ≤ ·)) = fcis at *
  have numbers : nackNumbers (([0x81, 205] ++ putBe16 (2 + fcis.length) ++ putBe32 sender ++
      putBe32 media) ++ fcis.flatMap Fci.bytes) = fcis.flatMap Fci.expand :=
    congrArg (flatMap Fci.expand) (readFcis_flatMap fcis)
  refine ⟨?_, ?_, ?_⟩
  · rw [numbers]
    exact nodup
  · rw [numbers]
    ext seq
    rw [mem_toFinset, covers, Finset.mem_sort]
  · have field : rtcpLength (([0x81, 205] ++ putBe16 (2 + fcis.length) ++ putBe32 sender ++
        putBe32 media) ++ fcis.flatMap Fci.bytes) = (2 + fcis.length) % 2 ^ 16 :=
      be16_ofNat (2 + fcis.length)
    rw [field, Nat.mod_eq_of_lt (by omega), length_append, length_flatMap_bytes]
    change 12 + 4 * fcis.length = _
    omega

/-- Both ends of the range: neither item reaches the other. -/
theorem buildNack_exact_ends :
    (nackNumbers (buildNack 1 2 {0, 16, 0xFFFF})).Nodup ∧
      (nackNumbers (buildNack 1 2 {0, 16, 0xFFFF})).toFinset = {0, 16, 0xFFFF} ∧
      (buildNack 1 2 {0, 16, 0xFFFF}).length =
        4 * (rtcpLength (buildNack 1 2 {0, 16, 0xFFFF}) + 1) :=
  buildNack_exact 1 2 {0, 16, 0xFFFF} ⟨0, by decide⟩

end Scshr.Protocol
