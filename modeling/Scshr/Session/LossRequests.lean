import Scshr.Media.SequenceTracking
import Scshr.Protocol.Nack

/-! Requests for lost packets: `track_seq` of the packet thread and `drain_pending_nack` of the TX
thread (`session/session.cpp`), as whole calls in any order. -/
namespace Scshr.Session

open Common Lib Media Protocol List

/-- The packets of `drain_pending_nack`, each with its SSRC, and what is left behind. -/
def drainPendingNack (sender : UInt32) (tracker : SeqTracker) :
    List (UInt32 × Bytes) × SeqTracker :=
  ((tracker.nackPending.keys.filter fun ssrc => tracker.pending ssrc ≠ ∅).map fun ssrc =>
      (ssrc, buildNack sender ssrc (tracker.pending ssrc)),
    { tracker with
      nackPending := ⟨tracker.nackPending.entries.map fun entry => ⟨entry.1, ∅⟩, by
        simpa [NodupKeys, keys, Function.comp_def] using tracker.nackPending.nodupKeys⟩ })

variable {sender ssrc : UInt32} {tracker : SeqTracker}

theorem view_drainPendingNack (sender ssrc : UInt32) (tracker : SeqTracker) :
    (drainPendingNack sender tracker).2.view ssrc = (tracker.seq.lookup ssrc, ∅) := by
  refine Prod.ext rfl ?_
  cases left : (drainPendingNack sender tracker).2.nackPending.lookup ssrc with
  | none => exact congrArg (Option.getD · ∅) left
  | some pending =>
    obtain ⟨entry, -, same⟩ := mem_map.mp (AList.mem_lookup_iff.mp left)
    cases same
    exact congrArg (Option.getD · ∅) left

theorem mem_drainPendingNack {packet : Bytes} :
    (ssrc, packet) ∈ (drainPendingNack sender tracker).1 ↔
      (tracker.pending ssrc).Nonempty ∧
        packet = buildNack sender ssrc (tracker.pending ssrc) := by
  have known (pending : (tracker.pending ssrc).Nonempty) : ssrc ∈ tracker.nackPending.keys := by
    by_contra unknown
    rw [SeqTracker.pending, AList.lookup_eq_none.mpr unknown] at pending
    exact Finset.not_nonempty_empty pending
  simp only [drainPendingNack, mem_map, mem_filter, decide_eq_true_eq, Prod.mk.injEq]
  constructor
  · rintro ⟨ssrc, ⟨-, some⟩, rfl, rfl⟩
    exact ⟨Finset.nonempty_iff_ne_empty.mpr some, rfl⟩
  · rintro ⟨some, rfl⟩
    exact ⟨ssrc, ⟨known some, some.ne_empty⟩, rfl, rfl⟩

theorem mem_nackNumbers_buildNack (sender media : UInt32) {lost : Finset UInt16}
    (some : lost.Nonempty) (seq : UInt16) :
    seq ∈ nackNumbers (buildNack sender media lost) ↔ seq ∈ lost := by
  have few := nackFcis_length _ (sort_ascending lost)
  rw [buildNack_eq sender media some few]
  change seq ∈ (readFcis ((nackFcis _).flatMap Fci.bytes)).flatMap Fci.expand ↔ _
  rw [readFcis_flatMap, (nackFcis_expand _ (lost.sort_nodup (· ≤ ·))).2, Finset.mem_sort]

/-- What is waited for does not depend on the rollovers. -/
theorem foldl_track_roc (maxSeq : UInt16) (one two : UInt32) (pending : Finset UInt16)
    (seqs : List UInt16) :
    (seqs.foldl SeqView.track (some ⟨maxSeq, one⟩, pending)).2 =
      (seqs.foldl SeqView.track (some ⟨maxSeq, two⟩, pending)).2 := by
  induction seqs generalizing maxSeq one two pending with
  | nil => rfl
  | cons seq seqs ih =>
    simp only [foldl_cons, SeqView.track]
    split_ifs <;> apply ih

/-- Whatever the calls before a round and between it and the next were, the next one asks, in one
packet, for what was skipped in between and did not come since, and for nothing else. -/
theorem drainPendingNack_requests (sender ssrc : UInt32) (tracker : SeqTracker) (st : SsrcSeq)
    (highest : Int) (calls : List SeqCall) (known : tracker.seq.lookup ssrc = some st)
    (stands : st.maxSeq = seqOf highest)
    (followed : Followed highest (calls.filterMap (SeqCall.numberOf ssrc)))
    (spanned : Spanned (highest :: calls.filterMap (SeqCall.numberOf ssrc))) :
    let requests :=
      (drainPendingNack sender ((drainPendingNack sender tracker).2.run calls)).1
    let Lost := Receiver.Missing 31 highest (calls.filterMap (SeqCall.numberOf ssrc))
    (requests.map Prod.fst).Nodup ∧
      ((∃ packet, (ssrc, packet) ∈ requests) ↔ ∃ x, Lost x) ∧
      ∀ packet, (ssrc, packet) ∈ requests →
        ∀ seq, seq ∈ nackNumbers packet ↔ ∃ x, Lost x ∧ seqOf x = seq := by
  intro requests Lost
  have waiting (seq : UInt16) :
      seq ∈ ((drainPendingNack sender tracker).2.run calls).pending ssrc ↔
        ∃ x, Lost x ∧ seqOf x = seq := by
    obtain ⟨last, pending, tracked, -, missing⟩ := track_run followed
    have view := SeqTracker.view_run (drainPendingNack sender tracker).2 calls ssrc
    rw [view_drainPendingNack, known] at view
    have same := (congrArg Prod.snd view).trans (foldl_track_roc st.maxSeq st.roc 0 ∅ _)
    rw [stands, tracked] at same
    change seq ∈ (SeqTracker.view _ ssrc).2 ↔ _
    rw [same, missing spanned seq]
    simp only [Receiver.mem_missing_run, Lost]
  refine ⟨?_, ?_, ?_⟩
  · simpa [requests, drainPendingNack, Function.comp_def] using (AList.keys_nodup _).filter _
  · simp only [requests, mem_drainPendingNack, exists_and_left, exists_eq, and_true,
      Finset.Nonempty, waiting]
    rw [exists_comm]
    simp
  · intro packet sent seq
    obtain ⟨some, rfl⟩ := mem_drainPendingNack.mp sent
    rw [mem_nackNumbers_buildNack sender ssrc some, waiting]

/-- What the first round asked for is not asked for again; of the new gap one number came late. -/
theorem drainPendingNack_requests_gap :
    let tracker := SeqTracker.new.run [⟨5, 10, 0⟩, ⟨5, 13, 0⟩]
    ∃ packet, (5, packet) ∈ (drainPendingNack 1 ((drainPendingNack 1 tracker).2.run
      [⟨5, 16, 0⟩, ⟨6, 9, 0⟩, ⟨5, 14, 0⟩])).1 ∧ 15 ∈ nackNumbers packet := by
  intro tracker
  obtain ⟨-, sent, asked⟩ := drainPendingNack_requests 1 5 tracker ⟨13, 0⟩ 13
    [⟨5, 16, 0⟩, ⟨6, 9, 0⟩, ⟨5, 14, 0⟩] rfl rfl (by simp [SeqCall.numberOf, Followed, Near])
    (by simp [SeqCall.numberOf, Spanned])
  have lost : Receiver.Missing 31 13 [16, 14] 15 :=
    ⟨[], 16, [14], rfl, by decide, by decide, by decide, by decide⟩
  obtain ⟨packet, mem⟩ := sent.mpr ⟨15, lost⟩
  exact ⟨packet, mem, (asked packet mem 15).mpr ⟨15, lost, rfl⟩⟩

end Scshr.Session
