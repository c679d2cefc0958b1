import Scshr.Crypto.SrtpForgery
import Scshr.Lib.Folds
import Scshr.Media.BurstGather

/-! Which groups the units of the initial burst come from.  The live path feeds no
group with a gap between its packets; `gather_initial_burst` only asks for a marker
packet, so a unit of a group with a hole is stored and stays stored until a later
group of its tile brings a key picture. -/
namespace Scshr.Media

open Common Lib Crypto Option

/-- In circular order no sequence number is missing and the last packet carries
the marker.  A repeated packet is no hole. -/
structure WholeGroup (pkts : List BurstPkt) : Prop where
  consecutive : (Circular.sort BurstPkt.seq pkts).IsChain fun left right =>
    right.seq = left.seq ∨ right.seq = left.seq + 1
  marked : (Circular.sort BurstPkt.seq pkts).getLast?.any BurstPkt.marker = true

instance (pkts : List BurstPkt) : Decidable (WholeGroup pkts) :=
  decidable_of_iff (_ ∧ _) ⟨fun h => ⟨h.1, h.2⟩, fun h => ⟨h.consecutive, h.marked⟩⟩

/-! ## The units of a group -/

def BurstRole.isKey : BurstRole → Bool
  | .keyPicture => true
  | _ => false

def BurstRole.isStored : BurstRole → Bool
  | .keyPicture => true
  | .picture => true
  | _ => false

def isPicture (codec : VideoCodec) (nal : Bytes) : Bool :=
  decide (unitMin codec ≤ nal.length) && (burstRole codec (nal.headD 0)).isStored

def isKeyPicture (codec : VideoCodec) (nal : Bytes) : Bool :=
  decide (unitMin codec ≤ nal.length) && (burstRole codec (nal.headD 0)).isKey

def groupPictures (codec : VideoCodec) (group : BurstGroup) : List Bytes :=
  (reassembleBurst codec (burstOrder group.2)).units.filter (isPicture codec)

def tileUnits (codec : VideoCodec) (tiles : AssocMap UInt32 Nat) (tile : Nat)
    (group : BurstGroup) : List StoredNal :=
  if groupTile tiles group = some tile then
    (groupPictures codec group).map fun nal => ⟨nal, group.2⟩
  else []

variable {codec : VideoCodec} {tiles : AssocMap UInt32 Nat} {groups : List BurstGroup}

theorem mem_tileUnits :
    item ∈ tileUnits codec tiles tile group ↔
      groupTile tiles group = some tile ∧
        ∃ nal ∈ groupPictures codec group, ⟨nal, group.2⟩ = item := by
  unfold tileUnits
  split
  · rename_i htile
    rw [List.mem_map, htile]
    exact (and_iff_right rfl).symm
  · rename_i htile
    exact iff_of_false List.not_mem_nil fun h => htile h.1

def StoredNal.isKey (codec : VideoCodec) (stored : StoredNal) : Bool :=
  isKeyPicture codec stored.nal

/-! ## The list of a tile -/

namespace Harvest

def stored (state : Harvest) (tile : Nat) : List StoredNal :=
  (state.tileNalus.lookup tile).getD []

section

variable (codec : VideoCodec) (tile : Nat) (origin : List BurstPkt) (state : Harvest)

theorem stored_keepKey (item : StoredNal) (other : Nat) :
    (state.keepKey tile item).stored other =
      if other = tile then [item] else state.stored other := by
  unfold stored keepKey
  split
  · rename_i heq
    rw [heq, AList.lookup_insert, getD_some]
  · rename_i hne
    rw [AList.lookup_insert_ne hne]

theorem stored_keepPicture (item : StoredNal) (other : Nat) :
    (state.keepPicture tile item).stored other =
      if other = tile then state.stored tile ++ [item] else state.stored other := by
  unfold stored keepPicture
  split
  · rename_i heq
    rw [heq, AList.lookup_insert, getD_some]
  · rename_i hne
    rw [AList.lookup_insert_ne hne]

theorem stored_unit (nal : Bytes) (other : Nat) :
    (unit codec tile origin state nal).stored other =
      if other = tile ∧ isPicture codec nal then
        restart (StoredNal.isKey codec) (state.stored tile) ⟨nal, origin⟩
      else state.stored other := by
  unfold unit isPicture restart StoredNal.isKey isKeyPicture
  by_cases hshort : nal.length < unitMin codec
  · simp [hshort, Nat.not_le.mpr hshort]
  · simp only [if_neg hshort, decide_eq_true (Nat.not_lt.mp hshort), Bool.true_and]
    cases burstRole codec (nal.headD 0) with
    | keyPicture =>
      simp only [BurstRole.isStored, BurstRole.isKey, and_true, if_true]
      exact stored_keepKey tile _ _ other
    | picture =>
      simp only [BurstRole.isStored, BurstRole.isKey, and_true, Bool.false_eq_true, if_false]
      exact stored_keepPicture tile _ _ other
    | vps => simp [BurstRole.isStored, stored]
    | sps => simp [BurstRole.isStored, stored]
    | pps => simp [BurstRole.isStored, stored]
    | other => simp [BurstRole.isStored, stored]

theorem stored_units (nals : List Bytes) (other : Nat) :
    (nals.foldl (unit codec tile origin) state).stored other =
      if other = tile then
        ((nals.filter (isPicture codec)).map fun nal => ⟨nal, origin⟩).foldl
          (restart (StoredNal.isKey codec)) (state.stored tile)
      else state.stored other := by
  induction nals generalizing state with
  | nil => split <;> simp_all
  | cons nal nals ih =>
    rw [List.foldl_cons, ih, stored_unit, stored_unit]
    by_cases hother : other = tile
    · by_cases hpicture : isPicture codec nal = true <;> simp [hother, hpicture]
    · simp [hother]

theorem stored_configs (packets : List BurstPkt) (other : Nat) :
    (state.configs codec packets).stored other = state.stored other ∧
      (state.configs codec packets).lastIdr = state.lastIdr := by
  cases codec with
  | hevc => exact ⟨rfl, rfl⟩
  | avc =>
    change (packets.foldl config state).stored other = _ ∧
      (packets.foldl config state).lastIdr = _
    induction packets generalizing state with
    | nil => exact ⟨rfl, rfl⟩
    | cons pkt packets ih =>
      have hpkt : (state.config pkt).stored other = state.stored other ∧
          (state.config pkt).lastIdr = state.lastIdr := by
        unfold config
        split
        · split <;> exact ⟨rfl, rfl⟩
        · exact ⟨rfl, rfl⟩
      rw [List.foldl_cons, (ih (state.config pkt)).1, (ih (state.config pkt)).2]
      exact hpkt

end

def Listed (state : Harvest) : Prop :=
  ∀ tile item, state.lastIdr.lookup tile = some item → item ∈ state.stored tile

variable {state : Harvest}

theorem Listed.unit (h : state.Listed) (codec : VideoCodec) (tile : Nat) (origin : List BurstPkt)
    (nal : Bytes) : (unit codec tile origin state nal).Listed := by
  unfold Harvest.unit
  split
  · exact h
  · dsimp only
    split
    · exact h
    · exact h
    · exact h
    · intro other item hitem
      rw [stored_keepKey]
      unfold keepKey at hitem
      split
      · rename_i heq
        rw [heq, AList.lookup_insert] at hitem
        rw [some_inj.mp hitem]
        exact List.mem_singleton_self _
      · rename_i hne
        rw [AList.lookup_insert_ne hne] at hitem
        exact h other item hitem
    · intro other item hitem
      have hold := h other item hitem
      rw [stored_keepPicture]
      split
      · rename_i heq
        rw [heq] at hold
        exact List.mem_append_left _ hold
      · exact hold
    · exact h

theorem Listed.units (h : state.Listed) (codec : VideoCodec) (tile : Nat) (origin : List BurstPkt)
    (nals : List Bytes) : (nals.foldl (Harvest.unit codec tile origin) state).Listed := by
  induction nals generalizing state with
  | nil => exact h
  | cons nal nals ih => exact ih (h.unit codec tile origin nal)

theorem Listed.configs (h : state.Listed) (codec : VideoCodec) (packets : List BurstPkt) :
    (state.configs codec packets).Listed := by
  intro tile item hitem
  rw [(stored_configs codec state packets tile).2] at hitem
  rw [(stored_configs codec state packets tile).1]
  exact h tile item hitem

end Harvest

/-! ## All groups -/

section

theorem harvestGroup_some (h : harvestGroup codec tiles state group = some next) :
    (state.Listed → next.Listed) ∧ ∀ tile, next.stored tile =
      (tileUnits codec tiles tile group).foldl (restart (StoredNal.isKey codec))
        (state.stored tile) := by
  unfold harvestGroup at h
  cases htile : groupTile tiles group with
  | none =>
    simp only [htile, Option.some.injEq] at h
    rw [← h]
    refine ⟨id, fun tile => ?_⟩
    simp [tileUnits, htile]
  | some found =>
    simp only [htile] at h
    obtain ⟨nals, hnals, hnext⟩ := map_eq_some_iff.mp h
    rw [← hnext]
    refine ⟨fun hlisted => ?_, fun tile => ?_⟩
    · apply Harvest.Listed.units
      apply Harvest.Listed.configs
      exact hlisted
    · rw [Harvest.stored_units, (Harvest.stored_configs codec _ _ _).1,
        (Harvest.stored_configs codec _ _ _).1, ← NalState.units_of_read hnals]
      unfold tileUnits groupPictures
      by_cases hfound : tile = found
      · rw [if_pos hfound, if_pos (by rw [htile, hfound]), hfound]
        rfl
      · rw [if_neg hfound, if_neg]
        · rfl
        · rw [htile, some_inj]
          exact Ne.symm hfound

theorem harvestGroups_some (h : harvestGroups codec tiles state groups = some last) :
    (state.Listed → last.Listed) ∧ ∀ tile, last.stored tile =
      (groups.flatMap (tileUnits codec tiles tile)).foldl (restart (StoredNal.isKey codec))
        (state.stored tile) := by
  unfold harvestGroups at h
  induction groups generalizing state with
  | nil =>
    rw [← some_inj.mp h]
    exact ⟨id, fun tile => rfl⟩
  | cons group groups ih =>
    rw [List.foldlM_cons] at h
    obtain ⟨next, hnext, hrest⟩ := bind_eq_some_iff.mp h
    obtain ⟨hlisted, hstored⟩ := harvestGroup_some hnext
    obtain ⟨hlistedRest, hstoredRest⟩ := ih hrest
    refine ⟨hlistedRest ∘ hlisted, fun tile => ?_⟩
    rw [hstoredRest, hstored, List.flatMap_cons, List.foldl_append]

end

/-! ## Where stored units come from -/

def InitialBurst.Stores (burst : InitialBurst) (item : StoredNal) : Prop :=
  (∃ tile, burst.lastIdr.lookup tile = some item) ∨
    ∃ tile nals, burst.tileNalus.lookup tile = some nals ∧ item ∈ nals

/-- A harvested group with a hole has no picture, or a later group of the same
tile has a key picture. -/
def HolesHidden (codec : VideoCodec) (tiles : AssocMap UInt32 Nat) (groups : List BurstGroup) :
    Prop :=
  ∀ group after tile, (group :: after) <:+ groups → groupTile tiles group = some tile →
    WholeGroup group.2 ∨ groupPictures codec group = [] ∨
      ∃ later ∈ after, groupTile tiles later = some tile ∧
        ∃ nal ∈ groupPictures codec later, isKeyPicture codec nal = true

theorem stores_iff (h : harvestGroups codec tiles {} groups = some state) (item : StoredNal) :
    (initialBurst codec tiles groups state).Stores item ↔
      ∃ tile before after, groups.flatMap (tileUnits codec tiles tile) = before ++ item :: after ∧
        ∀ later ∈ after, later.isKey codec = false := by
  obtain ⟨hlisted, hstored⟩ := harvestGroups_some h
  have hmem : (initialBurst codec tiles groups state).Stores item ↔
      ∃ tile, item ∈ state.stored tile := by
    constructor
    · rintro (⟨tile, hlast⟩ | ⟨tile, nals, hnals, hitem⟩)
      · exact ⟨tile, hlisted (fun tile item hnone => by cases hnone) tile item hlast⟩
      · refine ⟨tile, ?_⟩
        change state.tileNalus.lookup tile = some nals at hnals
        rwa [Harvest.stored, hnals, getD_some]
    · rintro ⟨tile, hitem⟩
      unfold Harvest.stored at hitem
      cases hnals : state.tileNalus.lookup tile with
      | none => simp [hnals] at hitem
      | some nals =>
        rw [hnals, getD_some] at hitem
        exact Or.inr ⟨tile, nals, hnals, hitem⟩
  rw [hmem]
  apply exists_congr
  intro tile
  rw [hstored tile, ← mem_foldl_restart]
  rfl

theorem stored_whole_iff :
    (∀ item tile before after, groups.flatMap (tileUnits codec tiles tile) =
        before ++ item :: after → (∀ later ∈ after, later.isKey codec = false) →
        WholeGroup item.origin) ↔
      HolesHidden codec tiles groups := by
  constructor
  · rintro hall group after tile ⟨before, hgroups⟩ htile
    rw [or_iff_not_imp_right, not_or]
    rintro ⟨hpictures, hlater⟩
    obtain ⟨front, back, hfront⟩ := List.eq_nil_or_concat (groupPictures codec group)
      |>.resolve_left hpictures
    -- the last picture of the group has no key picture behind it
    apply hall ⟨back, group.2⟩ tile
      (before.flatMap (tileUnits codec tiles tile) ++ front.map fun nal => ⟨nal, group.2⟩)
      (after.flatMap (tileUnits codec tiles tile))
    · rw [← hgroups, List.flatMap_append, List.flatMap_cons]
      simp [tileUnits, htile, hfront]
    · intro later hmem
      obtain ⟨other, hother, hunit⟩ := List.mem_flatMap.mp hmem
      obtain ⟨hsame, nal, hnal, rfl⟩ := mem_tileUnits.mp hunit
      rw [Bool.eq_false_iff]
      intro hkey
      exact hlater ⟨other, hother, hsame, nal, hnal, hkey⟩
  · intro hhidden item tile before after hitems hplain
    obtain ⟨group, rest, front, back, hsuffix, hunits, hafter⟩ := exists_owner_of_flatMap hitems
    have hunit : item ∈ tileUnits codec tiles tile group := by simp [hunits]
    obtain ⟨htile, nal, hnal, rfl⟩ := mem_tileUnits.mp hunit
    rcases hhidden group rest tile hsuffix htile with hwhole | hnone | hlater
    · exact hwhole
    · rw [hnone] at hnal
      cases hnal
    · obtain ⟨later, hmem, hsame, key, hkey, hiskey⟩ := hlater
      have hbehind : ⟨key, later.2⟩ ∈ after := by
        rw [hafter]
        apply List.mem_append_right
        apply List.mem_flatMap.mpr
        exact ⟨later, hmem, mem_tileUnits.mpr ⟨hsame, key, hkey, rfl⟩⟩
      have hnot := hplain _ hbehind
      rw [StoredNal.isKey, hiskey] at hnot
      cases hnot

/-- Every stored unit comes from a whole group exactly when each harvested group
with a hole has no picture or is followed by a key picture of its tile. -/
theorem stored_units_whole_iff (crypto : SrtpCrypto) (raw : List (Bytes × Int))
    (dec : SrtpDecryptor) (codec : VideoCodec) (tilesPerFrame qualityTier : Int)
    (burst : InitialBurst)
    (hburst : (gatherInitialBurst crypto raw dec codec tilesPerFrame qualityTier).1 = .ok burst) :
    (∀ item, burst.Stores item → WholeGroup item.origin) ↔
      ∀ tiles, selectTiles (collectBurst crypto dec raw).dec tilesPerFrame qualityTier =
          some tiles →
        HolesHidden codec tiles (collectBurst crypto dec raw).groups := by
  obtain ⟨tiles, state, htiles, hstate, rfl⟩ := gatherInitialBurst_ok hburst
  have hall : (∀ item, (initialBurst codec tiles (collectBurst crypto dec raw).groups state).Stores
      item → WholeGroup item.origin) ↔
      HolesHidden codec tiles (collectBurst crypto dec raw).groups := by
    rw [← stored_whole_iff]
    simp only [stores_iff hstate, forall_exists_index, and_imp]
  rw [hall, htiles]
  simp only [Option.some.injEq, forall_eq']

/-! ## A lost fragment -/

theorem exists_ok {ε α : Type} {result : Except ε α} (h : result.toOption.isSome) :
    ∃ value, result = .ok value := by
  cases result with
  | error => cases h
  | ok value => exact ⟨value, rfl⟩

def sampleDatagram (seq : UInt8) (marker : Bool) (payload : Bytes) : Bytes × Int :=
  ([0x80, if marker then 0xE0 else 0x60, 0, seq, 0, 0, 0, 9, 0, 0, 0, 7] ++ payload ++
    List.replicate 10 0, 0)

def sampleParameters : Bytes :=
  [0x60, 1, 0, 0, 0, 2, 0x40, 1, 0, 2, 0x42, 1, 0, 2, 0x44, 1]

def wholeBurst : List (Bytes × Int) :=
  [sampleDatagram 10 false sampleParameters, sampleDatagram 11 false [0x62, 1, 0x93, 0, 0, 0xAA],
    sampleDatagram 12 false [0x62, 1, 0x13, 0, 0, 0xBB],
    sampleDatagram 13 true [0x62, 1, 0x53, 0, 0, 0xCC]]

theorem stored_units_whole_wholeBurst :
    ∃ burst, (gatherInitialBurst zeroCrypto wholeBurst (.new zeroCrypto [] []) .hevc 1 0).1 =
        .ok burst ∧
      burst.lastIdr.lookup 0 ≠ none ∧ ∀ item, burst.Stores item → WholeGroup item.origin := by
  have hstored : ((gatherInitialBurst zeroCrypto wholeBurst (.new zeroCrypto [] []) .hevc 1 0).1
      |>.toOption.bind fun burst => burst.lastIdr.lookup 0).isSome := by decide +kernel
  have hwhole : ∀ group ∈ (collectBurst zeroCrypto (.new zeroCrypto [] []) wholeBurst).groups,
      WholeGroup group.2 := by decide +kernel
  obtain ⟨burst, hburst⟩ := exists_ok (isSome_of_isSome_bind hstored)
  rw [hburst] at hstored
  refine ⟨burst, hburst, isSome_iff_ne_none.mp hstored, ?_⟩
  apply (stored_units_whole_iff _ _ _ _ _ _ burst hburst).mpr
  intro tiles htiles group after tile hsuffix htile
  exact Or.inl (hwhole group (hsuffix.subset List.mem_cons_self))

def holedBurst : List (Bytes × Int) :=
  [sampleDatagram 10 false sampleParameters, sampleDatagram 11 false [0x62, 1, 0x93, 0, 0, 0xAA],
    sampleDatagram 13 true [0x62, 1, 0x53, 0, 0, 0xCC]]

/-- The key picture is stored without its middle. -/
theorem holedBurst_stores_partial :
    ∃ burst item, (gatherInitialBurst zeroCrypto holedBurst (.new zeroCrypto [] []) .hevc 1 0).1 =
        .ok burst ∧
      burst.Stores item ∧ item.nal = [0x26, 1, 0xAA, 0xCC] ∧
      item.origin.map BurstPkt.seq = [10, 11, 13] ∧ ¬ WholeGroup item.origin := by
  have hstored : ((gatherInitialBurst zeroCrypto holedBurst (.new zeroCrypto [] []) .hevc 1 0).1
      |>.toOption.bind fun burst => burst.lastIdr.lookup 0).any fun item =>
        item.nal = [0x26, 1, 0xAA, 0xCC] ∧ item.origin.map BurstPkt.seq = [10, 11, 13] ∧
          ¬ WholeGroup item.origin := by decide +kernel
  cases hburst : (gatherInitialBurst zeroCrypto holedBurst (.new zeroCrypto [] []) .hevc 1 0).1 with
  | error error =>
    rw [hburst] at hstored
    cases hstored
  | ok burst =>
    rw [hburst] at hstored
    change (burst.lastIdr.lookup 0).any _ = true at hstored
    cases hitem : burst.lastIdr.lookup 0 with
    | none =>
      rw [hitem] at hstored
      cases hstored
    | some item =>
      rw [hitem] at hstored
      exact ⟨burst, item, rfl, Or.inl ⟨0, hitem⟩, of_decide_eq_true hstored⟩

end Scshr.Media
