import Mathlib.Data.Finset.Basic
import Scshr.Crypto.SrtpRollover

/-! The tiles' sources (`Session::note_unknown_ssrc`).  When the picture has stalled, a group
of fresh SSRCs that are numbered consecutively takes the place of the mapped ones. -/
namespace Scshr.Session

open Common Lib Crypto SrtpDecryptor Option AList
open List hiding after mem_keys

def dynamicSsrcPacketThreshold : Nat := 5

def ssrcAdoptStallNs : Int := 2000000000

structure Sources where
  ssrcToTile : AssocMap UInt32 Nat
  ssrcBlacklist : Finset UInt32
  observedTileCount : Nat
  lastSsrcAdoptNs : Int
  ssrcChanges : Nat
  lastPublishNs : Int
  videoDec : SrtpDecryptor

/-- The loop of the search: the run so far and the candidates ahead. -/
def searchRun (want : Nat) : List UInt32 → List UInt32 → Option (List UInt32)
  | _, [] => none
  | run, cand :: cands =>
      if cand - run.getLastD 0 ≤ 1 ∧ run.length < want then
        if (run ++ [cand]).length = want then some (run ++ [cand])
        else searchRun want (run ++ [cand]) cands
      else searchRun want [cand] cands

def findGroup (want : Nat) (cands : List UInt32) : Option (List UInt32) :=
  if cands.length < want then none
  else
    match cands with
    | [] => none
    | cand :: cands => if want = 1 then some [cand] else searchRun want [cand] cands

def tileMap (group : List UInt32) : AssocMap UInt32 Nat :=
  group.zipIdx.foldl (fun map entry => map.insert entry.1 entry.2) ∅

namespace Sources

def Eligible (sources : Sources) (ssrc : UInt32) : Prop :=
  ssrc ∉ sources.ssrcToTile ∧ ssrc ∉ sources.ssrcBlacklist ∧
    dynamicSsrcPacketThreshold ≤ (sources.videoDec.counts.lookup ssrc).getD 0

instance (sources : Sources) (ssrc : UInt32) : Decidable (sources.Eligible ssrc) :=
  inferInstanceAs (Decidable (_ ∧ _ ∧ _))

def candidates (sources : Sources) : List UInt32 :=
  (sources.videoDec.counts.keys.filter fun ssrc => sources.Eligible ssrc).insertionSort (· ≤ ·)

/-- A time of zero stands for no publish at all. -/
def Recent (last now : Int) : Prop := 0 < last ∧ now - last < ssrcAdoptStallNs

instance (last now : Int) : Decidable (Recent last now) :=
  inferInstanceAs (Decidable (_ ∧ _))

def freshGroup (want : Nat) (sources : Sources) (ssrc : UInt32) (now : Int) :
    Option (List UInt32) :=
  if ssrc ∈ sources.ssrcToTile then none
  else if sources.ssrcToTile.keys ≠ [] ∧ Recent sources.lastPublishNs now then none
  else (findGroup want sources.candidates).filter fun group =>
    !decide ((tileMap group).entries.Perm sources.ssrcToTile.entries)

def Adopts (want : Nat) (sources : Sources) (ssrc : UInt32) (now : Int) : Prop :=
  (sources.freshGroup want ssrc now).isSome

/-- The function up to the point where it turns to the decoder. -/
def noteUnknownSsrc (want : Nat) (sources : Sources) (ssrc : UInt32) (now : Int) : Sources :=
  match sources.freshGroup want ssrc now with
  | none => sources
  | some group =>
      { sources with
        ssrcToTile := tileMap group
        ssrcBlacklist := sources.ssrcBlacklist ∪ sources.ssrcToTile.keys.toFinset
        observedTileCount := (tileMap group).keys.length
        lastSsrcAdoptNs := now
        ssrcChanges := sources.ssrcChanges + 1
        lastPublishNs := now }

end Sources

/-- What happens to the sources: a datagram arrives, a frame is published, or the packet
thread asks about an SSRC. -/
inductive SourceEvent where
  | packet (pkt : Bytes)
  | publish (now : Int)
  | note (ssrc : UInt32) (now : Int)
  deriving DecidableEq

namespace SourceEvent

def time? : SourceEvent → Option Int
  | packet _ => none
  | publish now => some now
  | note _ now => some now

end SourceEvent

namespace Sources

section Runs

variable (crypto : SrtpCrypto) (want : Nat)

def step (sources : Sources) : SourceEvent → Sources
  | .packet pkt => { sources with videoDec := (sources.videoDec.decrypt crypto pkt).2 }
  | .publish now => { sources with lastPublishNs := now }
  | .note ssrc now => sources.noteUnknownSsrc want ssrc now

def run (sources : Sources) (events : List SourceEvent) : Sources :=
  events.foldl (step crypto want) sources

/-- The headers of the packets that authenticate. -/
def authenticated (decryptor : SrtpDecryptor) : List SourceEvent → List RtpHeaderInfo
  | [] => []
  | .packet pkt :: events =>
      ((decryptor.decrypt crypto pkt).1.map Prod.fst).toList ++
        authenticated (decryptor.decrypt crypto pkt).2 events
  | _ :: events => authenticated decryptor events

end Runs

end Sources

/-! ## The search -/

def Consecutive (first : Nat) (group : List UInt32) : Prop :=
  group.map UInt32.toNat = range' first group.length

variable {first : Nat} {group : List UInt32}

theorem Consecutive.singleton (ssrc : UInt32) : Consecutive ssrc.toNat [ssrc] := rfl

theorem Consecutive.snoc (h : Consecutive first group) (hnext : ssrc.toNat = first + group.length) :
    Consecutive first (group ++ [ssrc]) := by
  unfold Consecutive at h ⊢
  rw [map_append, h, length_append, length_singleton, range'_1_concat,
    map_singleton, hnext]

theorem Consecutive.getElem? (h : Consecutive first group) (i : Nat) (ssrc : UInt32) :
    group[i]? = some ssrc ↔ i < group.length ∧ ssrc.toNat = first + i := by
  have hentry : ∀ hi : i < group.length, group[i].toNat = first + i := by
    intro hi
    have hvalue := congrArg (·[i]?) h
    simp only [getElem?_map, getElem?_range' hi, getElem?_eq_getElem hi,
      map_some, some_inj] at hvalue
    omega
  rw [getElem?_eq_some_iff]
  constructor
  · rintro ⟨hi, rfl⟩
    exact ⟨hi, hentry hi⟩
  · rintro ⟨hi, hvalue⟩
    exact ⟨hi, UInt32.toNat_inj.mp ((hentry hi).trans hvalue.symm)⟩

theorem Consecutive.mem_iff (h : Consecutive first group) (ssrc : UInt32) :
    ssrc ∈ group ↔ first ≤ ssrc.toNat ∧ ssrc.toNat < first + group.length := by
  rw [mem_iff_getElem?]
  constructor
  · rintro ⟨i, hi⟩
    have hplace := (h.getElem? i ssrc).mp hi
    omega
  · rintro ⟨hlow, hhigh⟩
    exact ⟨ssrc.toNat - first, (h.getElem? _ ssrc).mpr (by omega)⟩

theorem Consecutive.getLastD (h : Consecutive first group) (hne : group ≠ []) :
    (group.getLastD 0).toNat + 1 = first + group.length := by
  have hpos := length_pos_iff.mpr hne
  have hlast : group[group.length - 1]? = some (group.getLastD 0) := by
    rw [← getLast?_eq_getElem?, getLastD_eq_getLast?,
      getLast?_eq_getLast_of_ne_nil hne]
    rfl
  have hplace := ((h.getElem? _ _).mp hlast).2
  omega

theorem Consecutive.bound (h : Consecutive first group) (hne : group ≠ []) :
    first + group.length ≤ 2 ^ 32 := by
  have hlast := h.getLastD hne
  have hlt := (group.getLastD 0).toNat_lt
  omega

/-- Some consecutive SSRCs, as many as wanted, all have the property. -/
def HasBlock (want : Nat) (P : UInt32 → Prop) : Prop :=
  ∃ first, first + want ≤ 2 ^ 32 ∧ ∀ ssrc : UInt32,
    first ≤ ssrc.toNat → ssrc.toNat < first + want → P ssrc

section Search

variable {want : Nat} {run cands : List UInt32}

theorem exists_toNat (value : Nat) (h : value < 2 ^ 32) : ∃ ssrc : UInt32, ssrc.toNat = value :=
  ⟨UInt32.ofNat value, UInt32.toNat_ofNat_of_lt' h⟩

theorem sub_getLastD_le_one (hrun : Consecutive first run) (hne : run ≠ [])
    (hbehind : ∀ ssrc ∈ run, ssrc < cand) :
    cand - run.getLastD 0 ≤ 1 ↔ cand.toNat = first + run.length := by
  have hlast := hrun.getLastD hne
  have hmem : run.getLastD 0 ∈ run := by
    apply (hrun.mem_iff _).mpr
    have hpos := length_pos_iff.mpr hne
    omega
  have hless : (run.getLastD 0).toNat < cand.toNat := UInt32.lt_iff_toNat_lt.mp (hbehind _ hmem)
  have hsub := UInt32.toNat_sub_of_le cand (run.getLastD 0) (UInt32.le_iff_toNat_le.mpr (by omega))
  rw [UInt32.le_iff_toNat_le, hsub]
  simp only [UInt32.toNat_one]
  omega

structure Searching (want first : Nat) (run cands : List UInt32) : Prop where
  consecutive : Consecutive first run
  nonempty : run ≠ []
  short : run.length < want
  sorted : (run ++ cands).Pairwise (· < ·)

namespace Searching

variable {cand : UInt32}

theorem behind (h : Searching want first run (cand :: cands)) : ∀ ssrc ∈ run, ssrc < cand :=
  fun ssrc hssrc => (pairwise_append.mp h.sorted).2.2 ssrc hssrc cand mem_cons_self

theorem ahead (h : Searching want first run (cand :: cands)) : ∀ ssrc ∈ cands, cand < ssrc :=
  (pairwise_cons.mp (pairwise_append.mp h.sorted).2.1).1

theorem extend (h : Searching want first run (cand :: cands))
    (hnext : cand.toNat = first + run.length) (hshort : (run ++ [cand]).length ≠ want) :
    Searching want first (run ++ [cand]) cands where
  consecutive := h.consecutive.snoc hnext
  nonempty := by simp
  short := by
    have hlt := h.short
    simp only [length_append, length_singleton] at hshort ⊢
    omega
  sorted := by simpa using h.sorted

theorem restart (h : Searching want first run (cand :: cands)) :
    Searching want cand.toNat [cand] cands where
  consecutive := .singleton cand
  nonempty := by simp
  short := by
    have hpos := length_pos_iff.mpr h.nonempty
    have hlt := h.short
    simp only [length_singleton]
    omega
  sorted := (pairwise_append.mp h.sorted).2.1

theorem searchRun_cons (h : Searching want first run (cand :: cands)) :
    searchRun want run (cand :: cands) =
      if cand.toNat = first + run.length then
        if (run ++ [cand]).length = want then some (run ++ [cand])
        else searchRun want (run ++ [cand]) cands
      else searchRun want [cand] cands := by
  have htest := sub_getLastD_le_one h.consecutive h.nonempty h.behind
  rw [searchRun]
  simp only [htest, h.short, and_true]

theorem start_of_block (h : Searching want first run (cand :: cands))
    (hgap : cand.toNat ≠ first + run.length) (hbound : start + want ≤ 2 ^ 32)
    (hblock : ∀ ssrc : UInt32, start ≤ ssrc.toNat → ssrc.toNat < start + want →
      ssrc ∈ run ++ cand :: cands) : cand.toNat ≤ start := by
  by_contra hbefore
  have hshort := h.short
  have hahead : ∀ ssrc ∈ run ++ cand :: cands, ssrc.toNat < cand.toNat → ssrc ∈ run := by
    intro ssrc hssrc hless
    rcases mem_append.mp hssrc with hrun | hrest
    · exact hrun
    · rcases mem_cons.mp hrest with rfl | hcands
      · omega
      · have hlater := UInt32.lt_iff_toNat_lt.mp (h.ahead ssrc hcands)
        omega
  obtain ⟨low, hlow⟩ := exists_toNat start (by omega)
  have hfirst := (h.consecutive.mem_iff low).mp
    (hahead low (hblock low (by omega) (by omega)) (by omega))
  have hlast := h.consecutive.getLastD h.nonempty
  have hbehind := UInt32.lt_iff_toNat_lt.mp
    (h.behind (run.getLastD 0) ((h.consecutive.mem_iff _).mpr (by omega)))
  obtain ⟨missing, hmissing⟩ := exists_toNat (first + run.length) (by omega)
  have hinside := (h.consecutive.mem_iff missing).mp
    (hahead missing (hblock missing (by omega) (by omega)) (by omega))
  omega

end Searching

theorem searchRun_sound (h : Searching want first run cands)
    (hfound : searchRun want run cands = some group) :
    group.length = want ∧ (∃ first, Consecutive first group) ∧
      ∀ ssrc ∈ group, ssrc ∈ run ++ cands := by
  induction cands generalizing run first with
  | nil => cases hfound
  | cons cand cands ih =>
    rw [h.searchRun_cons] at hfound
    split at hfound
    · next hnext =>
      split at hfound
      · next hfull =>
        obtain rfl := some_inj.mp hfound
        refine ⟨hfull, ⟨first, h.consecutive.snoc hnext⟩, ?_⟩
        intro ssrc hssrc
        simp only [mem_append, mem_cons] at hssrc ⊢
        tauto
      · next hshort =>
        obtain ⟨hlength, hblock, hmem⟩ := ih (h.extend hnext hshort) hfound
        exact ⟨hlength, hblock, fun ssrc hssrc => by simpa using hmem ssrc hssrc⟩
    · obtain ⟨hlength, hblock, hmem⟩ := ih h.restart hfound
      exact ⟨hlength, hblock, fun ssrc hssrc => mem_append_right run (hmem ssrc hssrc)⟩

theorem searchRun_complete (h : Searching want first run cands)
    (hnone : searchRun want run cands = none) : ¬ HasBlock want (· ∈ run ++ cands) := by
  induction cands generalizing run first with
  | nil =>
    rintro ⟨start, hbound, hblock⟩
    have hshort := h.short
    obtain ⟨low, hlow⟩ := exists_toNat start (by omega)
    obtain ⟨high, hhigh⟩ := exists_toNat (start + want - 1) (by omega)
    have hmem : ∀ ssrc : UInt32, start ≤ ssrc.toNat → ssrc.toNat < start + want → ssrc ∈ run :=
      fun ssrc hge hlt => by simpa using hblock ssrc hge hlt
    have hfirst := (h.consecutive.mem_iff low).mp (hmem low (by omega) (by omega))
    have hlast := (h.consecutive.mem_iff high).mp (hmem high (by omega) (by omega))
    omega
  | cons cand cands ih =>
    rw [h.searchRun_cons] at hnone
    split at hnone
    · next hnext =>
      split at hnone
      · cases hnone
      · next hshort =>
        have hrest := ih (h.extend hnext hshort) hnone
        simpa using hrest
    · next hgap =>
      have hrest := ih h.restart hnone
      rintro ⟨start, hbound, hblock⟩
      have hstart := h.start_of_block hgap hbound hblock
      refine hrest ⟨start, hbound, fun ssrc hge hlt => ?_⟩
      apply (mem_append.mp (hblock ssrc hge hlt)).resolve_left
      intro hssrc
      have hless := UInt32.lt_iff_toNat_lt.mp (h.behind ssrc hssrc)
      omega

theorem HasBlock.length_le {list : List UInt32} (h : HasBlock want (· ∈ list)) :
    want ≤ list.length := by
  obtain ⟨first, hbound, hblock⟩ := h
  have hsubset : range' first want ⊆ list.map UInt32.toNat := by
    intro value hvalue
    have hrange := mem_range'_1.mp hvalue
    obtain ⟨ssrc, hssrc⟩ := exists_toNat value (by omega)
    exact mem_map.mpr ⟨ssrc, hblock ssrc (by omega) (by omega), hssrc⟩
  have hle := (List.Nodup.subperm nodup_range' hsubset).length_le
  rwa [length_range', length_map] at hle

theorem findGroup_sound (hwant : 1 ≤ want) (hsorted : cands.Pairwise (· < ·))
    (hfound : findGroup want cands = some group) :
    group.length = want ∧ (∃ first, Consecutive first group) ∧ ∀ ssrc ∈ group, ssrc ∈ cands := by
  unfold findGroup at hfound
  split at hfound
  · cases hfound
  · cases cands with
    | nil => cases hfound
    | cons cand cands =>
      dsimp only at hfound
      split at hfound
      · next hone =>
        obtain rfl := some_inj.mp hfound
        exact ⟨hone.symm, ⟨_, .singleton cand⟩, by simp⟩
      · next hmany =>
        have hstart : Searching want cand.toNat [cand] cands :=
          ⟨.singleton cand, by simp, by simp only [length_singleton]; omega, hsorted⟩
        exact searchRun_sound hstart hfound

theorem findGroup_complete (hwant : 1 ≤ want) (hsorted : cands.Pairwise (· < ·))
    (hblock : HasBlock want (· ∈ cands)) : findGroup want cands ≠ none := by
  intro hnone
  have hlength := hblock.length_le
  unfold findGroup at hnone
  rw [if_neg (by omega)] at hnone
  cases cands with
  | nil => simp at hlength; omega
  | cons cand cands =>
    dsimp only at hnone
    split at hnone
    · cases hnone
    · next hmany =>
      have hstart : Searching want cand.toNat [cand] cands :=
        ⟨.singleton cand, by simp, by simp only [length_singleton]; omega, hsorted⟩
      exact searchRun_complete hstart hnone hblock

end Search

/-! ## The map of a group -/

theorem tileMap_snoc (group : List UInt32) (ssrc : UInt32) :
    tileMap (group ++ [ssrc]) = (tileMap group).insert ssrc group.length := by
  simp [tileMap, zipIdx_append]

theorem lookup_tileMap (hnodup : group.Nodup) (ssrc : UInt32) (tile : Nat) :
    (tileMap group).lookup ssrc = some tile ↔ group[tile]? = some ssrc := by
  induction group using reverseRecOn with
  | nil => simp [tileMap]
  | append_singleton group last ih =>
    have hgroup : group.Nodup := hnodup.sublist (sublist_append_left group [last])
    have hfresh : last ∉ group := by
      intro hmem
      exact disjoint_of_nodup_append hnodup hmem mem_cons_self
    rw [tileMap_snoc, getElem?_append]
    by_cases hlast : ssrc = last
    · subst hlast
      rw [lookup_insert, some_inj]
      split
      · have habsent : group[tile]? ≠ some ssrc := fun hget => hfresh (mem_of_getElem? hget)
        simp only [habsent, iff_false]
        omega
      · simp only [getElem?_singleton]
        grind
    · rw [lookup_insert_ne hlast, ih hgroup]
      split
      · rfl
      · grind

theorem mem_tileMap (hnodup : group.Nodup) (ssrc : UInt32) :
    ssrc ∈ tileMap group ↔ ssrc ∈ group := by
  rw [← lookup_isSome, isSome_iff_exists, mem_iff_getElem?]
  simp only [lookup_tileMap hnodup]

theorem Consecutive.nodup (h : Consecutive first group) : group.Nodup := by
  apply List.Nodup.of_map UInt32.toNat
  rw [h]
  exact nodup_range'

namespace Sources

/-! ## One call -/

variable {want : Nat} {sources : Sources} {ssrc : UInt32} {now : Int}

theorem mem_candidates (sources : Sources) (ssrc : UInt32) :
    ssrc ∈ sources.candidates ↔ sources.Eligible ssrc := by
  rw [candidates, (perm_insertionSort _ _).mem_iff, mem_filter, decide_eq_true_iff]
  constructor
  · exact And.right
  · intro heligible
    refine ⟨?_, heligible⟩
    have hcount := heligible.2.2
    cases hlookup : sources.videoDec.counts.lookup ssrc with
    | none => rw [hlookup] at hcount; cases hcount
    | some count => exact AssocMap.mem_of_lookup hlookup

theorem sorted_candidates (sources : Sources) : sources.candidates.Pairwise (· < ·) := by
  have hle : sources.candidates.Pairwise (· ≤ ·) := pairwise_insertionSort _ _
  have hnodup : sources.candidates.Nodup :=
    (perm_insertionSort _ _).nodup_iff.mpr (sources.videoDec.counts.keys_nodup.filter _)
  exact hle.imp₂ (fun _ _ hle hne => UInt32.lt_of_le_of_ne hle hne) hnodup

theorem freshGroup_spec (hwant : 1 ≤ want) (h : sources.freshGroup want ssrc now = some group) :
    group.length = want ∧ (∃ first, Consecutive first group) ∧
      (∀ key ∈ group, sources.Eligible key) ∧
      (sources.ssrcToTile.keys ≠ [] → ¬ Recent sources.lastPublishNs now) := by
  unfold freshGroup at h
  split at h
  · cases h
  · split at h
    · cases h
    · next hquiet =>
      rw [filter_eq_some_iff] at h
      obtain ⟨hlength, hblock, hmem⟩ := findGroup_sound hwant sources.sorted_candidates h.1
      refine ⟨hlength, hblock, ?_, fun hactive hrecent => hquiet ⟨hactive, hrecent⟩⟩
      exact fun key hkey => (sources.mem_candidates key).mp (hmem key hkey)

theorem adopts_iff (hwant : 1 ≤ want) (hunmapped : ssrc ∉ sources.ssrcToTile)
    (hquiet : ¬ Recent sources.lastPublishNs now) :
    sources.Adopts want ssrc now ↔ HasBlock want sources.Eligible := by
  unfold Adopts
  constructor
  · intro hsome
    obtain ⟨group, hgroup⟩ := isSome_iff_exists.mp hsome
    obtain ⟨rfl, ⟨first, hblock⟩, heligible, -⟩ := freshGroup_spec hwant hgroup
    exact ⟨first, hblock.bound (length_pos_iff.mp hwant),
      fun key hge hlt => heligible key ((hblock.mem_iff key).mpr ⟨hge, hlt⟩)⟩
  · intro hblock
    have hcands : HasBlock want (· ∈ sources.candidates) := by
      simpa only [mem_candidates] using hblock
    obtain ⟨group, hgroup⟩ := ne_none_iff_exists'.mp
      (findGroup_complete hwant sources.sorted_candidates hcands)
    obtain ⟨hlength, ⟨first, hconsecutive⟩, hmem⟩ :=
      findGroup_sound hwant sources.sorted_candidates hgroup
    -- the group is not the map in place: its members are not mapped
    have hother : ¬ (tileMap group).entries.Perm sources.ssrcToTile.entries := by
      intro hperm
      cases group with
      | nil => simp only [length_nil] at hlength; omega
      | cons key group =>
        have hkey : key ∈ tileMap (key :: group) :=
          (mem_tileMap hconsecutive.nodup key).mpr mem_cons_self
        have hmapped : key ∈ sources.ssrcToTile := (mem_of_perm hperm).mp hkey
        exact ((sources.mem_candidates key).mp (hmem key mem_cons_self)).1 hmapped
    unfold freshGroup
    rw [if_neg hunmapped, if_neg (fun h => hquiet h.2), hgroup]
    simp [hother]

theorem noteUnknownSsrc_cases (want : Nat) (sources : Sources) (ssrc : UInt32) (now : Int) :
    (sources.freshGroup want ssrc now = none ∧ sources.noteUnknownSsrc want ssrc now = sources) ∨
      ∃ group, sources.freshGroup want ssrc now = some group ∧
        (sources.noteUnknownSsrc want ssrc now).ssrcToTile = tileMap group ∧
        (sources.noteUnknownSsrc want ssrc now).ssrcBlacklist =
          sources.ssrcBlacklist ∪ sources.ssrcToTile.keys.toFinset ∧
        (sources.noteUnknownSsrc want ssrc now).lastPublishNs = now ∧
        (sources.noteUnknownSsrc want ssrc now).videoDec = sources.videoDec := by
  unfold noteUnknownSsrc
  cases sources.freshGroup want ssrc now with
  | none => exact .inl ⟨rfl, rfl⟩
  | some group => exact .inr ⟨group, rfl, rfl, rfl, rfl, rfl⟩

theorem tileMap_keys_ne_nil (hwant : 1 ≤ want) (h : sources.freshGroup want ssrc now = some group) :
    (tileMap group).keys ≠ [] := by
  obtain ⟨rfl, ⟨first, hblock⟩, -⟩ := freshGroup_spec hwant h
  obtain ⟨key, hkey⟩ := exists_mem_of_length_pos hwant
  exact ne_nil_of_mem (mem_keys.mp ((mem_tileMap hblock.nodup key).mpr hkey))

/-! ## Runs -/

section Runs

variable (crypto : SrtpCrypto) {before events : List SourceEvent} {time : Int} {start : Sources}

theorem run_append (want : Nat) (sources : Sources) (before after : List SourceEvent) :
    run crypto want sources (before ++ after) =
      run crypto want (run crypto want sources before) after :=
  foldl_append

theorem run_snoc (want : Nat) (sources : Sources) (before : List SourceEvent)
    (event : SourceEvent) :
    run crypto want sources (before ++ [event]) =
      (run crypto want sources before).step crypto want event :=
  run_append crypto want sources before [event]

theorem step_map_cases (want : Nat) (sources : Sources) (event : SourceEvent) :
    ((sources.step crypto want event).ssrcToTile = sources.ssrcToTile ∧
      (sources.step crypto want event).ssrcBlacklist = sources.ssrcBlacklist) ∨
      ∃ ssrc now group, sources.freshGroup want ssrc now = some group ∧
        (sources.step crypto want event).ssrcToTile = tileMap group ∧
        (sources.step crypto want event).ssrcBlacklist =
          sources.ssrcBlacklist ∪ sources.ssrcToTile.keys.toFinset := by
  cases event with
  | packet pkt => exact .inl ⟨rfl, rfl⟩
  | publish now => exact .inl ⟨rfl, rfl⟩
  | note ssrc now =>
    rw [step]
    rcases noteUnknownSsrc_cases want sources ssrc now with
      ⟨-, hsame⟩ | ⟨group, hgroup, hmap, hblack, -⟩
    · rw [hsame]
      exact .inl ⟨rfl, rfl⟩
    · exact .inr ⟨ssrc, now, group, hgroup, hmap, hblack⟩

variable {crypto}

theorem run_invariant {P : Sources → Prop}
    (hstep : ∀ sources event, P sources → P (step crypto want sources event)) (h : P sources)
    (events : List SourceEvent) : P (run crypto want sources events) := by
  induction events generalizing sources with
  | nil => exact h
  | cons event events ih => exact ih (hstep _ event h)

def Separate (sources : Sources) : Prop :=
  ∀ ssrc ∈ sources.ssrcToTile, ssrc ∉ sources.ssrcBlacklist

theorem Separate.step (hwant : 1 ≤ want) (h : sources.Separate) (event : SourceEvent) :
    (sources.step crypto want event).Separate := by
  intro ssrc
  rcases step_map_cases crypto want sources event with
    ⟨hmap, hblack⟩ | ⟨asked, now, group, hgroup, hmap, hblack⟩
  · rw [hmap, hblack]
    exact h ssrc
  · obtain ⟨-, ⟨first, hblock⟩, heligible, -⟩ := freshGroup_spec hwant hgroup
    rw [hmap, hblack, mem_tileMap hblock.nodup, Finset.mem_union, List.mem_toFinset,
      ← mem_keys]
    intro hssrc
    have hfresh := heligible ssrc hssrc
    exact not_or.mpr ⟨hfresh.2.1, hfresh.1⟩

theorem Separate.run (hwant : 1 ≤ want) (h : sources.Separate) (events : List SourceEvent) :
    (Sources.run crypto want sources events).Separate :=
  run_invariant (fun _ event hs => hs.step hwant event) h events

theorem mapped_or_blacklisted_step (crypto : SrtpCrypto) (want : Nat)
    (h : ssrc ∈ sources.ssrcToTile ∨ ssrc ∈ sources.ssrcBlacklist) (event : SourceEvent) :
    ssrc ∈ (sources.step crypto want event).ssrcToTile ∨
      ssrc ∈ (sources.step crypto want event).ssrcBlacklist := by
  rcases step_map_cases crypto want sources event with
    ⟨hmap, hblack⟩ | ⟨asked, now, group, -, hmap, hblack⟩
  · rw [hmap, hblack]
    exact h
  · rw [hblack, Finset.mem_union, List.mem_toFinset, ← mem_keys]
    exact .inr h.symm

theorem blacklisted_step (crypto : SrtpCrypto) (want : Nat) (h : ssrc ∈ sources.ssrcBlacklist)
    (event : SourceEvent) : ssrc ∈ (sources.step crypto want event).ssrcBlacklist := by
  rcases step_map_cases crypto want sources event with
    ⟨-, hblack⟩ | ⟨asked, now, group, -, -, hblack⟩
  · rwa [hblack]
  · rw [hblack]
    exact Finset.mem_union_left _ h

theorem replaced_not_mapped (crypto : SrtpCrypto) (hwant : 1 ≤ want) (h : sources.Separate)
    (hmapped : ssrc ∈ sources.ssrcToTile) (first second : List SourceEvent)
    (hreplaced : ssrc ∉ (run crypto want sources first).ssrcToTile) :
    ssrc ∉ (run crypto want sources (first ++ second)).ssrcToTile := by
  have hmiddle : ssrc ∈ (run crypto want sources first).ssrcBlacklist := by
    have heither := run_invariant
      (P := fun s => ssrc ∈ s.ssrcToTile ∨ ssrc ∈ s.ssrcBlacklist)
      (fun s event hs => mapped_or_blacklisted_step crypto want hs event)
      (.inl hmapped) first
    exact heither.resolve_left hreplaced
  have hlast : ssrc ∈ (run crypto want sources (first ++ second)).ssrcBlacklist := by
    rw [run_append]
    exact run_invariant (P := fun s => ssrc ∈ s.ssrcBlacklist)
      (fun s event hs => blacklisted_step crypto want hs event) hmiddle second
  intro hagain
  exact h.run hwant (first ++ second) ssrc hagain hlast

/-! ## Times -/

def NotBefore (time : Int) (events : List SourceEvent) : Prop :=
  ∀ event ∈ events, ∀ now, event.time? = some now → time ≤ now

theorem held_run (crypto : SrtpCrypto) (hwant : 1 ≤ want)
    (h : sources.ssrcToTile.keys ≠ [] ∧ time ≤ sources.lastPublishNs)
    (hevents : NotBefore time events) :
    (run crypto want sources events).ssrcToTile.keys ≠ [] ∧
      time ≤ (run crypto want sources events).lastPublishNs := by
  induction events generalizing sources with
  | nil => exact h
  | cons event events ih =>
    refine ih ?_ fun later hlater => hevents later (mem_cons_of_mem event hlater)
    have hevent := hevents event mem_cons_self
    cases event with
    | packet pkt => exact h
    | publish now => exact ⟨h.1, hevent now rfl⟩
    | note ssrc now =>
      rw [step]
      rcases noteUnknownSsrc_cases want sources ssrc now with
        ⟨-, hsame⟩ | ⟨group, hgroup, hmap, -, hpublish, -⟩
      · rwa [hsame]
      · rw [hmap, hpublish]
        exact ⟨tileMap_keys_ne_nil hwant hgroup, hevent now rfl⟩

/-- The times that count as published: the one before the run, those of the run, and those
of its adoptions. -/
def PublishedAt (crypto : SrtpCrypto) (want : Nat) (start : Sources) (events : List SourceEvent)
    (time : Int) : Prop :=
  time = start.lastPublishNs ∨ .publish time ∈ events ∨
    ∃ before ssrc after, events = before ++ .note ssrc time :: after ∧
      (run crypto want start before).Adopts want ssrc time

theorem PublishedAt.snoc (h : PublishedAt crypto want start events time) (event : SourceEvent) :
    PublishedAt crypto want start (events ++ [event]) time := by
  rcases h with hstart | hpublish | ⟨before, ssrc, after, hsplit, hadopt⟩
  · exact .inl hstart
  · exact .inr (.inl (mem_append_left _ hpublish))
  · refine .inr (.inr ⟨before, ssrc, after ++ [event], ?_, hadopt⟩)
    rw [hsplit, append_assoc, cons_append]

theorem publishedAt_lastPublishNs (crypto : SrtpCrypto) (want : Nat) (start : Sources)
    (events : List SourceEvent) :
    PublishedAt crypto want start events (run crypto want start events).lastPublishNs := by
  induction events using reverseRecOn with
  | nil => exact .inl rfl
  | append_singleton events event ih =>
    rw [run_snoc]
    cases event with
    | packet pkt => exact ih.snoc (.packet pkt)
    | publish now => exact .inr (.inl (mem_append_right _ mem_cons_self))
    | note ssrc now =>
      rw [step]
      rcases noteUnknownSsrc_cases want (run crypto want start events) ssrc now with
        ⟨-, hsame⟩ | ⟨group, hgroup, -, -, hpublish, -⟩
      · rw [hsame]
        exact ih.snoc (.note ssrc now)
      · rw [hpublish]
        exact .inr (.inr ⟨events, ssrc, [], rfl, isSome_of_eq_some hgroup⟩)

/-! ## Counts -/

theorem counts_decrypt (crypto : SrtpCrypto) (decryptor : SrtpDecryptor) (pkt : Bytes)
    (ssrc : UInt32) :
    ((decryptor.decrypt crypto pkt).2.counts.lookup ssrc).getD 0 =
      (decryptor.counts.lookup ssrc).getD 0 +
        ((decryptor.decrypt crypto pkt).1.map Prod.fst).toList.countP (·.ssrc == ssrc) := by
  unfold SrtpDecryptor.decrypt
  split
  · rfl
  · dsimp only
    split
    · rfl
    · next roc plain hfound =>
      obtain ⟨tried, -, hplain⟩ := exists_of_findSome?_eq_some hfound
      simp only [map_eq_some_iff, Prod.mk.injEq] at hplain
      obtain ⟨decrypted, hdecrypt, -, rfl⟩ := hplain
      obtain ⟨-, -, hssrc, -⟩ := tryDecrypt_some hdecrypt
      by_cases hsame : ssrc = be32At pkt 8
      · subst hsame
        simp [lookup_insert, hssrc]
      · simp [lookup_insert_ne hsame, hssrc, Ne.symm hsame]

theorem counts_run (crypto : SrtpCrypto) (want : Nat) (start : Sources)
    (events : List SourceEvent) (ssrc : UInt32) :
    ((run crypto want start events).videoDec.counts.lookup ssrc).getD 0 =
      (start.videoDec.counts.lookup ssrc).getD 0 +
        (authenticated crypto start.videoDec events).countP (·.ssrc == ssrc) := by
  induction events generalizing start with
  | nil => rfl
  | cons event events ih =>
    have hrun : run crypto want start (event :: events) =
      run crypto want (start.step crypto want event) events := rfl
    rw [hrun, ih]
    cases event with
    | packet pkt => rw [authenticated, countP_append, step, counts_decrypt, Nat.add_assoc]
    | publish now => rfl
    | note asked now =>
      have hdec : (start.step crypto want (.note asked now)).videoDec = start.videoDec := by
        rw [step]
        rcases noteUnknownSsrc_cases want start asked now with ⟨-, hsame⟩ | ⟨-, -, -, -, -, hsame⟩
        · rw [hsame]
        · exact hsame
      rw [hdec, authenticated]
      simp

structure Clocked (events : List SourceEvent) : Prop where
  ordered : (events.filterMap SourceEvent.time?).Pairwise (· ≤ ·)
  positive : ∀ now ∈ events.filterMap SourceEvent.time?, 0 < now

theorem Clocked.notBefore (h : Clocked (before ++ event :: after)) (hnow : event.time? = some now) :
    NotBefore now after := by
  intro later hlater time htime
  have hordered := h.ordered
  rw [filterMap_append, filterMap_cons_some hnow, pairwise_append,
    pairwise_cons] at hordered
  exact hordered.2.1.1 time (mem_filterMap.mpr ⟨later, hlater, htime⟩)

theorem adoptions_apart (crypto : SrtpCrypto) (hwant : 1 ≤ want) (hpositive : 0 < now)
    (hbetween : NotBefore now between)
    (hadopt : (run crypto want start before).Adopts want ssrc now)
    (hagain :
      (run crypto want start (before ++ .note ssrc now :: between)).Adopts want ssrc' now') :
    ssrcAdoptStallNs ≤ now' - now := by
  obtain ⟨group, hgroup⟩ := isSome_iff_exists.mp hadopt
  obtain ⟨group', hgroup'⟩ := isSome_iff_exists.mp hagain
  have hfirst : (run crypto want start (before ++ [.note ssrc now])).ssrcToTile.keys ≠ [] ∧
      now ≤ (run crypto want start (before ++ [.note ssrc now])).lastPublishNs := by
    rw [run_snoc, step]
    rcases noteUnknownSsrc_cases want (run crypto want start before) ssrc now with
      ⟨hnone, -⟩ | ⟨adopted, hadopted, hmap, -, hpublish, -⟩
    · rw [hnone] at hgroup
      cases hgroup
    · rw [hmap, hpublish]
      exact ⟨tileMap_keys_ne_nil hwant hadopted, le_rfl⟩
  rw [append_cons, run_append] at hgroup'
  have hheld := held_run crypto hwant hfirst hbetween
  have hquiet := (freshGroup_spec hwant hgroup').2.2.2 hheld.1
  have hlast := hheld.2
  simp only [Recent, not_and, not_lt] at hquiet
  have hstall := hquiet (by omega)
  omega

theorem adopted_map (crypto : SrtpCrypto) (hwant : 1 ≤ want)
    (hadopt : (run crypto want start before).Adopts want ssrc now) :
    let adopted := (run crypto want start (before ++ [.note ssrc now])).ssrcToTile
    ∃ first, first + want ≤ 2 ^ 32 ∧
      (∀ key tile, adopted.lookup key = some tile ↔ tile < want ∧ key.toNat = first + tile) ∧
      ∀ key ∈ adopted, (run crypto want start before).Eligible key := by
  obtain ⟨group, hgroup⟩ := isSome_iff_exists.mp hadopt
  rw [run_snoc, step]
  rcases noteUnknownSsrc_cases want (run crypto want start before) ssrc now with
    ⟨hnone, -⟩ | ⟨adopted, hadopted, hmap, -, -, -⟩
  · rw [hnone] at hgroup
    cases hgroup
  · obtain ⟨rfl, ⟨first, hblock⟩, heligible, -⟩ := freshGroup_spec hwant hadopted
    refine ⟨first, hblock.bound (length_pos_iff.mp hwant), ?_, ?_⟩
    · intro key tile
      rw [hmap, lookup_tileMap hblock.nodup, hblock.getElem?]
    · intro key hkey
      rw [hmap, mem_tileMap hblock.nodup] at hkey
      exact heligible key hkey

theorem ssrc_adoption (crypto : SrtpCrypto) (want : Nat) (hwant : 1 ≤ want) (start : Sources)
    (hblacklist : start.ssrcBlacklist = ∅) (events : List SourceEvent) (hclock : Clocked events) :
    let after := run crypto want start
    (∀ (before : List SourceEvent) (ssrc : UInt32) (now : Int) (rest : List SourceEvent),
      events = before ++ .note ssrc now :: rest → (after before).Adopts want ssrc now →
      let adopted := (after (before ++ [.note ssrc now])).ssrcToTile
      ∃ first, first + want ≤ 2 ^ 32 ∧
        (∀ key tile, adopted.lookup key = some tile ↔ tile < want ∧ key.toNat = first + tile) ∧
        ∀ key ∈ adopted, dynamicSsrcPacketThreshold ≤
          (start.videoDec.counts.lookup key).getD 0 +
            (authenticated crypto start.videoDec before).countP (·.ssrc == key)) ∧
    (∀ before : List SourceEvent, before <+: events → (after before).Separate) ∧
    (∀ first second third : List SourceEvent, first ++ second ++ third <+: events →
      ∀ key ∈ (after first).ssrcToTile, key ∉ (after (first ++ second)).ssrcToTile →
        key ∉ (after (first ++ second ++ third)).ssrcToTile) ∧
    (∀ (before : List SourceEvent) (ssrc : UInt32) (now : Int) (between : List SourceEvent)
      (ssrc' : UInt32) (now' : Int) (rest : List SourceEvent),
      events = before ++ .note ssrc now :: (between ++ .note ssrc' now' :: rest) →
      (after before).Adopts want ssrc now →
      (after (before ++ .note ssrc now :: between)).Adopts want ssrc' now' →
      ssrcAdoptStallNs ≤ now' - now) ∧
    ∀ (before : List SourceEvent) (ssrc : UInt32) (now : Int) (rest : List SourceEvent),
      events = before ++ .note ssrc now :: rest → ssrc ∉ (after before).ssrcToTile →
      (∀ time, PublishedAt crypto want start before time → ¬ Recent time now) →
      ((after before).Adopts want ssrc now ↔ HasBlock want (after before).Eligible) := by
  have hseparate : start.Separate := by
    intro ssrc _
    rw [hblacklist]
    exact Finset.notMem_empty ssrc
  refine ⟨?_, ?_, ?_, ?_, ?_⟩
  · intro before ssrc now rest _ hadopt
    obtain ⟨first, hbound, hmap, heligible⟩ := adopted_map crypto hwant hadopt
    refine ⟨first, hbound, hmap, ?_⟩
    intro key hkey
    rw [← counts_run crypto want]
    exact (heligible key hkey).2.2
  · intro before _
    exact hseparate.run hwant before
  · intro first second third _ key hmapped hreplaced
    rw [append_assoc]
    rw [run_append] at hreplaced ⊢
    exact replaced_not_mapped crypto hwant (hseparate.run hwant first) hmapped second third
      hreplaced
  · intro before ssrc now between ssrc' now' rest hsplit hadopt hagain
    subst hsplit
    have hlater := hclock.notBefore rfl
    have hpositive := hclock.positive now
      (mem_filterMap.mpr ⟨.note ssrc now, by simp, rfl⟩)
    exact adoptions_apart crypto hwant hpositive
      (fun event hevent => hlater event (mem_append_left _ hevent)) hadopt hagain
  · intro before ssrc now rest _ hunmapped hquiet
    exact adopts_iff hwant hunmapped (hquiet _ (publishedAt_lastPublishNs crypto want start before))

end Runs

def stalled : Sources where
  ssrcToTile := (∅ : AssocMap UInt32 Nat).insert 3 0
  ssrcBlacklist := ∅
  observedTileCount := 1
  lastSsrcAdoptNs := 0
  ssrcChanges := 0
  lastPublishNs := 0
  videoDec := ⟨⟨[], [], []⟩, ∅, ((∅ : AssocMap UInt32 Nat).insert 7 5).insert 8 6⟩

theorem ssrc_adoption_stalled :
    stalled.Adopts 2 7 1 ∧ ∃ first, first + 2 ≤ 2 ^ 32 ∧ ∀ key tile,
      (run counterTagCrypto 2 stalled [.note 7 1]).ssrcToTile.lookup key = some tile ↔
        tile < 2 ∧ key.toNat = first + tile := by
  have hadopts : stalled.Adopts 2 7 1 := by
    unfold Adopts
    decide
  have hclock : Clocked [.note 7 1] :=
    ⟨pairwise_singleton .., fun now hnow => by
      obtain rfl := mem_singleton.mp hnow
      decide⟩
  obtain ⟨first, hbound, hmap, -⟩ := (ssrc_adoption counterTagCrypto 2 (by decide) stalled rfl
    [.note 7 1] hclock).1 [] 7 1 [] rfl hadopts
  exact ⟨hadopts, first, hbound, hmap⟩

end Sources

end Scshr.Session
