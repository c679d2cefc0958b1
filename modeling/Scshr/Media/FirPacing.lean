import Scshr.Media.GateSticky

/-! How close two granted full intra requests can be.  The time of the last grant sits in the
slot of tile 0, and only a grant writes it: a recovery and both resets leave it in place, so
the interval is measured from the last grant across every episode. -/
namespace Scshr.Media

namespace FrameQualityGate

def lastGrant (gate : FrameQualityGate) : Int := (gate.tile 0).firLast

variable {gate : FrameQualityGate} {t now : Int}

theorem lastGrant_setTile (gate : FrameQualityGate) (has : gate.HasTile t)
    (same : state.firLast = (gate.tile t).firLast) :
    (gate.setTile t state).lastGrant = gate.lastGrant := by
  unfold lastGrant
  rw [tile_setTile_zero gate state has]
  split
  next zero => exact zero ▸ same
  next => rfl

theorem lastGrant_countDecodeError (gate : FrameQualityGate) (now : Int) (has : gate.HasTile t) :
    (gate.countDecodeError t now).lastGrant = gate.lastGrant := by
  unfold countDecodeError
  dsimp only
  split
  · rfl
  · split <;> exact lastGrant_setTile gate has rfl

theorem lastGrant_markDecodeError (gate : FrameQualityGate) (t now : Int) (reliable : Bool) :
    (gate.markDecodeError t now reliable).lastGrant = gate.lastGrant := by
  unfold markDecodeError
  split
  next has => exact lastGrant_countDecodeError (gate.conceal now reliable) now has
  next => rfl

theorem lastGrant_markIdrObserved (gate : FrameQualityGate) (t now : Int) (suspicious : Bool) :
    (gate.markIdrObserved t now suspicious).lastGrant = gate.lastGrant := by
  unfold markIdrObserved
  split
  next has =>
    have observed : (gate.setTile t { gate.tile t with idrObservedAt := now }).lastGrant =
        gate.lastGrant := lastGrant_setTile gate has rfl
    dsimp only
    split
    · exact observed
    · split <;> exact observed
  next => rfl

theorem lastGrant_markClean (gate : FrameQualityGate) (t now : Int) :
    (gate.markClean t now).lastGrant = gate.lastGrant := by
  unfold markClean
  split
  next has =>
    dsimp only
    split <;> exact lastGrant_setTile gate has rfl
  next => rfl

theorem lastGrant_resetTile (gate : FrameQualityGate) (t : Int) :
    (gate.resetTile t).lastGrant = gate.lastGrant := by
  unfold resetTile
  split
  next has => exact lastGrant_setTile gate has rfl
  next => rfl

theorem lastGrant_foldl (op : FrameQualityGate → Nat → FrameQualityGate)
    (keeps : ∀ gate i, (op gate i).lastGrant = gate.lastGrant) (tiles : List Nat)
    (gate : FrameQualityGate) : (tiles.foldl op gate).lastGrant = gate.lastGrant := by
  induction tiles generalizing gate with
  | nil => rfl
  | cons i tiles ih => exact (ih (op gate i)).trans (keeps gate i)

theorem consumeFirRequest_nonempty (answered : (gate.consumeFirRequest now).1.Nonempty) :
    gate.keyframeRequired.Nonempty ∧ gate.firInterval ≤ now - gate.lastGrant := by
  unfold consumeFirRequest at answered
  split at answered
  next => exact absurd answered Finset.not_nonempty_empty
  next lossy =>
    split at answered
    next => exact absurd answered Finset.not_nonempty_empty
    next waited => exact ⟨Finset.nonempty_iff_ne_empty.mpr lossy, Int.not_lt.mp waited⟩

theorem lastGrant_consumeFirRequest_refused (refused : ¬ gate.Grants (.consume now)) :
    (gate.consumeFirRequest now).2.lastGrant = gate.lastGrant := by
  unfold consumeFirRequest
  split
  next => rfl
  next lossy =>
    split
    next => rfl
    next waited =>
      have granted := consumeFirRequest_granted gate now (Finset.nonempty_iff_ne_empty.mpr lossy)
        (Int.not_lt.mp waited)
      exact absurd (congrArg Prod.fst granted) refused

/-! ## One step -/

theorem lastGrant_step (gate : FrameQualityGate) (event : GateEvent)
    (refused : ¬ gate.Grants event) : (gate.step event).lastGrant = gate.lastGrant := by
  cases event with
  | consume now => exact lastGrant_consumeFirRequest_refused refused
  | decodeError t now reliable => exact lastGrant_markDecodeError gate t now reliable
  | idrObserved t now suspicious => exact lastGrant_markIdrObserved gate t now suspicious
  | clean t now => exact lastGrant_markClean gate t now
  | resetTile t => exact lastGrant_resetTile gate t
  | forceKeyframeAll now =>
    exact lastGrant_foldl _ (fun gate i => lastGrant_markDecodeError gate i now true) _ gate
  | reset => exact lastGrant_foldl _ (fun gate i => lastGrant_resetTile gate i) _ gate

theorem lastGrant_consumeFirRequest (gate : FrameQualityGate) (has : gate.HasTile 0)
    (answered : (gate.consumeFirRequest now).1.Nonempty) :
    (gate.step (.consume now)).lastGrant = now := by
  obtain ⟨lossy, waited⟩ := consumeFirRequest_nonempty answered
  have after : gate.step (.consume now) = gate.setTile 0 ((gate.tile 0).granted now) :=
    congrArg Prod.snd (consumeFirRequest_granted gate now lossy waited)
  have slot := tile_setTile_zero gate ((gate.tile 0).granted now) has
  rw [if_pos rfl] at slot
  rw [after]
  exact congrArg GateTile.firLast slot

theorem step_noTiles (event : GateEvent) : (new 0).step event = new 0 := by
  have none : ∀ t, ¬ (new 0).HasTile t := by
    intro t has
    obtain ⟨low, high⟩ := has
    exact absurd high (Int.not_lt.mpr low)
  cases event with
  | consume now => rfl
  | decodeError t now reliable => exact if_neg (none t)
  | idrObserved t now suspicious => exact if_neg (none t)
  | clean t now => exact if_neg (none t)
  | resetTile t => exact if_neg (none t)
  | forceKeyframeAll now => rfl
  | reset => rfl

/-! ## Runs -/

theorem run_noTiles (events : List GateEvent) : (new 0).run events = new 0 := by
  induction events with
  | nil => rfl
  | cons event events ih => rw [run_cons, step_noTiles, ih]

theorem hasTile_zero_of_lossy (n : Nat) (events : List GateEvent)
    (lossy : ((new n).run events).keyframeRequired.Nonempty) :
    ((new n).run events).HasTile 0 := by
  refine ⟨Int.le_refl 0, ?_⟩
  rw [tiles_run]
  cases n with
  | zero =>
    rw [run_noTiles] at lossy
    exact absurd lossy Finset.not_nonempty_empty
  | succ n => omega

theorem lastGrant_run (events : List GateEvent) (gate : FrameQualityGate)
    (none : gate.grants events = 0) : (gate.run events).lastGrant = gate.lastGrant := by
  induction events generalizing gate with
  | nil => rfl
  | cons event events ih =>
    rw [grants_cons] at none
    have refused : ¬ gate.Grants event := by
      intro granted
      rw [if_pos granted] at none
      omega
    calc ((gate.step event).run events).lastGrant
        = (gate.step event).lastGrant := ih (gate.step event) (by omega)
      _ = gate.lastGrant := lastGrant_step gate event refused

/-- Two requests with an answer, and none granted between them, are the fast interval apart,
and the slow one apart if the attempts counted before the second have reached the cap.  The
calls around them and the times they carry are arbitrary. -/
theorem fir_requests_paced (n : Nat) (before between : List GateEvent) (first second : Int)
    (answered : (((new n).run before).consumeFirRequest first).1.Nonempty)
    (consecutive : ((new n).run (before ++ [.consume first])).grants between = 0)
    (again : (((new n).run (before ++ .consume first :: between)).consumeFirRequest
      second).1.Nonempty) :
    reArmInterval ≤ second - first ∧
      (reArmCap ≤ ((new n).run (before ++ .consume first :: between)).firAttemptsTile0 →
        reArmSlowInterval ≤ second - first) := by
  have has := hasTile_zero_of_lossy n before (consumeFirRequest_nonempty answered).1
  have split : (new n).run (before ++ .consume first :: between) =
      ((new n).run (before ++ [.consume first])).run between := by
    unfold run
    rw [← List.foldl_append, List.append_assoc]
    rfl
  have last : ((new n).run (before ++ .consume first :: between)).lastGrant = first := by
    rw [split, lastGrant_run between _ consecutive, run_concat]
    exact lastGrant_consumeFirRequest _ has answered
  obtain ⟨-, waited⟩ := consumeFirRequest_nonempty again
  rw [last] at waited
  unfold firInterval at waited
  constructor
  · split at waited
    · exact Int.le_trans (by decide) waited
    · exact waited
  · intro capped
    rwa [if_pos capped] at waited

/-- A tile breaks, is asked for, is reset and breaks again: the second request is answered
when the interval since the first is over. -/
theorem fir_requests_paced_reset :
    reArmInterval ≤ (3000000000 : Int) - 2000000000 ∧
      (reArmCap ≤ ((new 1).run ([.decodeError 0 2000000000 true] ++ .consume 2000000000 ::
          [.reset, .decodeError 0 2500000000 true, .consume 2600000000])).firAttemptsTile0 →
        reArmSlowInterval ≤ (3000000000 : Int) - 2000000000) :=
  fir_requests_paced 1 [.decodeError 0 2000000000 true]
    [.reset, .decodeError 0 2500000000 true, .consume 2600000000] 2000000000 3000000000
    (by decide) (by decide) (by decide)

end FrameQualityGate

end Scshr.Media
