import Scshr.Media.HevcRps
import Scshr.Media.QualityGate

/-! How the decoder drives the reference tracker (`VideoDecoder::feed_burst` and
`feed_nalu`, for HEVC).  The burst hands it every unit, the live path only slices that are
no random access points. -/
namespace Scshr.Media

open Common List

/-- The units of a burst in the order they are fed: the first of every tile, the second of
every tile, and so on. -/
def burstRows (cache : List (Int × List Bytes)) : List (List Bytes) :=
  let maxBurst := cache.foldl (fun most entry => max most entry.2.length) 0
  (List.range maxBurst).map fun idx => cache.filterMap fun entry => entry.2[idx]?

/-- The tracker's part of `reset_state`; `sps` is the stored parameter set. -/
def resetTracker (sps : Bytes) (tracker : HevcRpsTracker) : HevcRpsTracker :=
  if 2 < sps.length then tracker.reset.feedSps (sps.drop 2) else tracker.reset

/-- What `feed_burst` does to the tracker.  `fallback` is the number of rows after which the
hardware is given up, for which the decoder counts its frames; the units are then decoded
again without the tracker. -/
def feedBurst (sps : Bytes) (fallback : Option Nat) (tracker : HevcRpsTracker)
    (cache : List (Int × List Bytes)) : HevcRpsTracker :=
  let rows := burstRows cache
  match fallback with
  | none => tracker.run (rows.flatten.filter (· ≠ []))
  | some count => resetTracker sps (tracker.run ((rows.take count).flatten.filter (· ≠ [])))

structure DecoderFeed where
  rps : HevcRpsTracker
  gate : FrameQualityGate
  lastCleanDonl : List (Option Nat)
  deriving DecidableEq

structure LiveNalu where
  nal : Bytes
  tile : Int
  donl : Option Nat
  now : Int
  queued : Bool
  deriving DecidableEq

def isTracked (nal : Bytes) : Bool :=
  hevcNalType (nal.getD 0 0) < 32 && !hevcIsIrap (hevcNalType (nal.getD 0 0))

namespace DecoderFeed

def noteMissing (feed : DecoderFeed) (live : LiveNalu) (missing : Finset Int) : DecoderFeed :=
  { feed with
    lastCleanDonl :=
      if missing = ∅ ∧ live.donl.isSome then feed.lastCleanDonl.set live.tile.toNat live.donl
      else feed.lastCleanDonl
    gate :=
      if missing = ∅ then feed.gate else feed.gate.markDecodeError live.tile live.now true }

def enqueue (gate : FrameQualityGate) (live : LiveNalu) : FrameQualityGate :=
  if live.queued then gate else gate.markDecodeError live.tile live.now true

def feedNalu (numTiles : Nat) (feed : DecoderFeed) (live : LiveNalu) :
    Finset Int × DecoderFeed :=
  if live.nal = [] ∨ live.tile < 0 ∨ (numTiles : Int) ≤ live.tile then (∅, feed)
  else if isTracked live.nal then
    let (missing, rps) := feed.rps.feed live.nal
    let feed := noteMissing { feed with rps := rps } live missing
    (missing, { feed with gate := enqueue feed.gate live })
  else (∅, { feed with gate := enqueue feed.gate live })

def feedNalus (numTiles : Nat) : DecoderFeed → List LiveNalu → List (Finset Int) × DecoderFeed
  | feed, [] => ([], feed)
  | feed, live :: rest =>
    let (missing, feed) := feed.feedNalu numTiles live
    let (others, feed) := feedNalus numTiles feed rest
    (missing :: others, feed)

end DecoderFeed

/-- Behind `front`, every slice refers as used only to pictures sent since the last IDR
slice. -/
def RefsSent (sps : HevcSpsState) : List Slice → List Slice → Prop
  | _, [] => True
  | front, slice :: rest =>
    slice.refs sps ⊆ pocs (sinceIdr front) ∧ RefsSent sps (front ++ [slice]) rest

variable {sps : HevcSpsState} {prev : Int}

theorem refsSent_append (first second : List Slice) (sent : RefsSent sps front (first ++ second)) :
    RefsSent sps (front ++ first) second := by
  induction first generalizing front with
  | nil =>
    rw [append_nil]
    exact sent
  | cons slice first ih =>
    have later := ih sent.2
    rw [append_assoc] at later
    exact later

structure SentWhole (sps : HevcSpsState) (slices : List Slice) : Prop where
  coded : Coded sps 0 slices
  refs : RefsSent sps [] slices

def LiveNalu.Tracked (numTiles : Nat) (live : LiveNalu) : Prop :=
  live.nal ≠ [] ∧ 0 ≤ live.tile ∧ live.tile < numTiles ∧ isTracked live.nal = true

theorem ne_nil_of_codedAfter {slice : Slice} (coded : slice.CodedAfter sps prev) :
    slice.nal ≠ [] := by
  obtain ⟨res, read, -⟩ := coded
  intro empty
  have unread : sliceRps sps slice.nal = none := by
    rw [empty]
    exact if_pos (.inr (by decide))
  rw [unread] at read
  cases read

theorem ne_nil_of_coded (slices : List Slice) (coded : Coded sps prev slices) :
    ∀ slice ∈ slices, slice.nal ≠ [] := by
  induction slices generalizing prev with
  | nil => exact fun _ mem => absurd mem not_mem_nil
  | cons first rest ih =>
    intro slice mem
    rcases mem_cons.mp mem with rfl | later
    · exact ne_nil_of_codedAfter coded.1
    · exact ih coded.2 slice later

namespace DecoderFeed

theorem feedNalu_tracked (tracked : live.Tracked numTiles) (feed : DecoderFeed)
    (clean : (feed.rps.feed live.nal).1 = ∅) :
    (feed.feedNalu numTiles live).1 = ∅ ∧
      (feed.feedNalu numTiles live).2.rps = (feed.rps.feed live.nal).2 ∧
      (feed.feedNalu numTiles live).2.gate = enqueue feed.gate live := by
  obtain ⟨filled, low, high, shown⟩ := tracked
  have inside : ¬ (live.nal = [] ∨ live.tile < 0 ∨ (numTiles : Int) ≤ live.tile) := by
    rintro (empty | below | above)
    · exact filled empty
    · omega
    · omega
  unfold feedNalu
  rw [if_neg inside, if_pos shown]
  refine ⟨clean, rfl, ?_⟩
  dsimp only [noteMissing]
  rw [if_pos clean]

/-- On a stream without losses that the tracker follows, no call finds a reference missing,
and the gate hears of full queues only. -/
theorem feedNalus_clean (numTiles : Nat) (live : List LiveNalu) (slices front : List Slice)
    (feed : DecoderFeed) (follows : feed.rps.Follows sps front prev) (coded : Coded sps prev slices)
    (same : live.map LiveNalu.nal = slices.map Slice.nal)
    (tracked : ∀ call ∈ live, call.Tracked numTiles) (refs : RefsSent sps front slices)
    (few : (pocs (front ++ slices)).card ≤ 8192) :
    (feed.feedNalus numTiles live).1 = live.map (fun _ => ∅) ∧
      (feed.feedNalus numTiles live).2.gate = live.foldl enqueue feed.gate := by
  induction live generalizing slices front prev feed with
  | nil => exact ⟨rfl, rfl⟩
  | cons call live ih =>
    cases slices with
    | nil => cases same
    | cons slice slices =>
      obtain ⟨nal, rest⟩ := cons_eq_cons.mp same
      have split : front ++ slice :: slices = front ++ [slice] ++ slices := by simp
      have fewer : (pocs (front ++ [slice])).card ≤ 8192 := by
        refine (Finset.card_le_card ?_).trans few
        rw [split]
        exact pocs_subset_append _ _
      have clean : (feed.rps.feed call.nal).1 = ∅ := by
        rw [nal]
        refine (follows.missing_eq coded.1).trans (Finset.filter_eq_empty_iff.mpr ?_)
        intro poc mem outside
        exact outside (pocs_sinceIdr_subset front (refs.1 mem))
      obtain ⟨none, rps, gate⟩ := feedNalu_tracked (tracked call mem_cons_self) feed clean
      have next := follows.feed coded.1 fewer
      rw [← nal, ← rps] at next
      have others := ih slices (front ++ [slice]) _ next coded.2 rest
        (fun other mem => tracked other (mem_cons_of_mem call mem)) refs.2 (split ▸ few)
      rw [gate] at others
      unfold feedNalus
      dsimp only
      rw [none, others.1]
      exact ⟨rfl, others.2⟩

end DecoderFeed

/-- No false alarm: without a fallback in the burst, with no random access point among the
live slices and at most 8192 POCs in the stream. -/
theorem no_false_alarm (numTiles : Nat) (feed : DecoderFeed) (sps : HevcSpsState)
    (spsNal : Bytes) (cache : List (Int × List Bytes)) (burst slices : List Slice)
    (live : List LiveNalu) (order : (burstRows cache).flatten = burst.map Slice.nal)
    (same : live.map LiveNalu.nal = slices.map Slice.nal)
    (sentWhole : SentWhole sps (burst ++ slices)) (few : (pocs (burst ++ slices)).card ≤ 8192)
    (tracked : ∀ call ∈ live, call.Tracked numTiles) :
    let fed := { feed with rps := feedBurst spsNal none { sps := sps } cache }
    (fed.feedNalus numTiles live).1 = live.map (fun _ => ∅) ∧
      (fed.feedNalus numTiles live).2.gate = live.foldl DecoderFeed.enqueue feed.gate := by
  intro fed
  have filled : (burst.map Slice.nal).filter (· ≠ []) = burst.map Slice.nal := by
    refine filter_eq_self.mpr fun nal mem => decide_eq_true ?_
    obtain ⟨slice, inside, rfl⟩ := mem_map.mp mem
    exact ne_nil_of_coded _ sentWhole.coded slice (mem_append_left slices inside)
  have tracker : fed.rps = HevcRpsTracker.run { sps := sps } (burst.map Slice.nal) := by
    show HevcRpsTracker.run { sps := sps } ((burstRows cache).flatten.filter (· ≠ [])) = _
    rw [order, filled]
  obtain ⟨last, follows, coded⟩ := (follows_start sps).run burst slices sentWhole.coded
    ((Finset.card_le_card (pocs_subset_append _ _)).trans few)
  rw [← tracker] at follows
  exact DecoderFeed.feedNalus_clean numTiles live slices burst fed follows coded same tracked
    (refsSent_append burst slices sentWhole.refs) few

def LiveNalu.plain (nal : Bytes) : LiveNalu := ⟨nal, 0, none, 0, true⟩

def DecoderFeed.fresh (sps : HevcSpsState) : DecoderFeed := ⟨{ sps := sps }, .new 1, [none]⟩

/-- An IDR slice and one more in the burst, one live slice. -/
theorem no_false_alarm_plain :
    let cache : List (Int × List Bytes) := [(0, [idrSlice.nal, (nextSlice 1).nal])]
    let fed := { DecoderFeed.fresh plainSps with
      rps := feedBurst [] none { sps := plainSps } cache }
    SentWhole plainSps [idrSlice, nextSlice 1, nextSlice 2] ∧
      (fed.feedNalus 1 [.plain (nextSlice 2).nal]).1 = [∅] := by
  have sentWhole : SentWhole plainSps ([idrSlice, nextSlice 1] ++ [nextSlice 2]) :=
    { coded := ⟨coded_idrSlice 0, coded_nextSlice 1 (by decide), coded_nextSlice 2 (by decide),
        trivial⟩
      refs := by
        refine ⟨?_, ?_, ?_, trivial⟩
        · unfold Slice.refs
          rw [sliceRps_idrSlice]
          decide
        · rw [refs_nextSlice]
          decide
        · rw [refs_nextSlice]
          decide }
  refine ⟨sentWhole, (no_false_alarm 1 (.fresh plainSps) plainSps [] _ [idrSlice, nextSlice 1]
    [nextSlice 2] [.plain (nextSlice 2).nal] rfl rfl sentWhole (by decide) ?_).1⟩
  intro call mem
  rw [mem_singleton.mp mem]
  exact ⟨by decide, by decide, by decide, by decide⟩

def narrowSps : HevcSpsState := { log2MaxPicOrderCntLsb := 4, parsed := true }

def seventhSlice : Slice := ⟨[0x02, 0x01, 0xd3, 0x94, 0xf0], 7⟩

def fourteenthSlice : Slice := ⟨[0x02, 0x01, 0xd7, 0x14, 0xf0], 14⟩

def firstSlice : Slice := ⟨[0x02, 0x01, 0xd0, 0x97], 1⟩

theorem sliceRps_narrow :
    sliceRps narrowSps idrSlice.nal = some ⟨0, [], 0⟩ ∧
      sliceRps narrowSps seventhSlice.nal = some ⟨7, [(-7, true)], 0⟩ ∧
      sliceRps narrowSps fourteenthSlice.nal = some ⟨14, [(-7, true)], 0⟩ ∧
      sliceRps narrowSps firstSlice.nal = some ⟨1, [(-1, true)], 0⟩ := by
  decide +kernel

theorem sentWhole_narrow :
    SentWhole narrowSps [idrSlice, seventhSlice, fourteenthSlice, idrSlice, firstSlice] := by
  obtain ⟨idr, seventh, fourteenth, first⟩ := sliceRps_narrow
  exact
    { coded := ⟨⟨_, idr, rfl⟩, ⟨_, seventh, by decide⟩, ⟨_, fourteenth, by decide⟩,
        ⟨_, idr, rfl⟩, ⟨_, first, by decide⟩, trivial⟩
      refs := by
        unfold RefsSent RefsSent RefsSent RefsSent RefsSent RefsSent Slice.refs
        rw [idr, seventh, fourteenth, first]
        decide }

/-- A live IDR slice is kept from the tracker, which goes on counting from POC 14: the slice
with POC 1 behind it becomes POC 17, and its reference to the IDR picture a missing POC 16. -/
theorem live_idr_false_alarm :
    let cache : List (Int × List Bytes) :=
      [(0, [idrSlice.nal, seventhSlice.nal, fourteenthSlice.nal])]
    let fed := { DecoderFeed.fresh narrowSps with
      rps := feedBurst [] none { sps := narrowSps } cache }
    let after := fed.feedNalus 1 [.plain idrSlice.nal, .plain firstSlice.nal]
    SentWhole narrowSps [idrSlice, seventhSlice, fourteenthSlice, idrSlice, firstSlice] ∧
      after.1 = [∅, {16}] ∧ after.2.gate.keyframeRequired = {0} :=
  ⟨sentWhole_narrow, by decide +kernel, by decide +kernel⟩

end Scshr.Media
