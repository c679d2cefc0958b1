import Scshr.Media.QualityGate

/-! The keyframe gate is sticky: a tile that needs a keyframe stays so until it is reset or
until it decodes cleanly after an IDR picture that came since it broke. -/
namespace Scshr.Media.FrameQualityGate

open List

/-! ## Single calls -/

/-- What a call that only reports errors does to the sets: tiles enter the one and leave the
other. -/
structure Raises (before after : FrameQualityGate) : Prop where
  required : before.keyframeRequired ⊆ after.keyframeRequired
  observed : after.idrObserved ⊆ before.idrObserved

variable {first second third : FrameQualityGate} {t : Int}

variable (gate : FrameQualityGate)

theorem Raises.refl : Raises gate gate :=
  ⟨subset_rfl, subset_rfl⟩

theorem Raises.trans (front : Raises first second) (back : Raises second third) :
    Raises first third :=
  ⟨front.required.trans back.required, back.observed.trans front.observed⟩

theorem raises_markDecodeError (t now : Int) (reliable : Bool) :
    Raises gate (gate.markDecodeError t now reliable) := by
  unfold markDecodeError
  split
  · unfold countDecodeError
    dsimp only
    split
    · exact ⟨subset_rfl, subset_rfl⟩
    · split
      · exact ⟨subset_rfl, subset_rfl⟩
      · exact ⟨Finset.subset_insert _ _, Finset.erase_subset _ _⟩
  · exact .refl gate

theorem raises_forceKeyframeAll (now : Int) : Raises gate (gate.forceKeyframeAll now) := by
  unfold forceKeyframeAll
  generalize List.range gate.tiles.length = tiles
  induction tiles generalizing gate with
  | nil => exact .refl gate
  | cons i tiles ih => exact (raises_markDecodeError gate i now true).trans (ih _)

/-- A reset takes a tile out of both sets at once. -/
structure Clears (before after : FrameQualityGate) : Prop where
  observed : after.idrObserved ⊆ before.idrObserved
  required : ∀ t ∈ after.idrObserved, t ∈ before.keyframeRequired → t ∈ after.keyframeRequired

theorem clears_resetTile (t : Int) : Clears gate (gate.resetTile t) := by
  unfold resetTile
  split
  · refine ⟨Finset.erase_subset _ _, ?_⟩
    intro u observed required
    exact Finset.mem_erase.mpr ⟨(Finset.mem_erase.mp observed).1, required⟩
  · exact ⟨subset_rfl, fun _ _ required => required⟩

theorem clears_reset : Clears gate gate.reset := by
  unfold reset
  generalize List.range gate.tiles.length = tiles
  induction tiles generalizing gate with
  | nil => exact ⟨subset_rfl, fun _ _ required => required⟩
  | cons i tiles ih =>
    have first := clears_resetTile gate i
    have rest := ih (gate.resetTile i)
    refine ⟨rest.observed.trans first.observed, ?_⟩
    intro t observed required
    exact rest.required t observed (first.required t (rest.observed observed) required)

theorem consumeFirRequest_sets (now : Int) :
    (gate.consumeFirRequest now).2.keyframeRequired = gate.keyframeRequired ∧
      (gate.consumeFirRequest now).2.idrObserved = gate.idrObserved := by
  unfold consumeFirRequest
  split
  · exact ⟨rfl, rfl⟩
  · split <;> exact ⟨rfl, rfl⟩

theorem markIdrObserved_sets (t now : Int) (suspicious : Bool) :
    (gate.markIdrObserved t now suspicious).keyframeRequired = gate.keyframeRequired ∧
      ∀ u ∈ (gate.markIdrObserved t now suspicious).idrObserved, u ∈ gate.idrObserved ∨
        (u = t ∧ suspicious = false ∧ t ∈ gate.keyframeRequired) := by
  unfold markIdrObserved
  split
  · dsimp only
    split
    · exact ⟨rfl, fun _ => .inl⟩
    · next sure =>
      split
      · next required =>
        refine ⟨rfl, ?_⟩
        intro u observed
        rcases Finset.mem_insert.mp observed with rfl | observed
        · exact .inr ⟨rfl, by simpa using sure, required⟩
        · exact .inl observed
      · exact ⟨rfl, fun _ => .inl⟩
  · exact ⟨rfl, fun _ => .inl⟩

theorem markClean_sets (t now : Int) :
    ((gate.markClean t now).keyframeRequired = gate.keyframeRequired ∧
      (gate.markClean t now).idrObserved = gate.idrObserved) ∨
    ((gate.markClean t now).keyframeRequired = gate.keyframeRequired.erase t ∧
      (gate.markClean t now).idrObserved = gate.idrObserved.erase t ∧
      t ∈ gate.idrObserved ∧ recoveryQuiet ≤ now - gate.lastUnreliableConcealment) := by
  unfold markClean
  split
  · dsimp only
    split
    · next recovers => exact .inr ⟨rfl, rfl, recovers.2.1, recovers.2.2⟩
    · exact .inl ⟨rfl, rfl⟩
  · exact .inl ⟨rfl, rfl⟩

/-- The number of tiles and the time of the last unreliable concealment are kept. -/
structure SameClock (before after : FrameQualityGate) : Prop where
  tiles : after.tiles.length = before.tiles.length
  unreliable : after.lastUnreliableConcealment = before.lastUnreliableConcealment

theorem SameClock.refl : SameClock gate gate := ⟨rfl, rfl⟩

theorem SameClock.trans (front : SameClock first second) (back : SameClock second third) :
    SameClock first third :=
  ⟨back.tiles.trans front.tiles, back.unreliable.trans front.unreliable⟩

theorem sameClock_setTile (t : Int) (state : GateTile) :
    SameClock gate (gate.setTile t state) := ⟨length_set, rfl⟩

theorem sameClock_countDecodeError (t now : Int) :
    SameClock gate (gate.countDecodeError t now) := by
  unfold countDecodeError
  dsimp only
  split
  · exact .refl gate
  · split
    · exact sameClock_setTile gate t _
    · exact ⟨length_set, rfl⟩

theorem sameClock_reliable (t now : Int) : SameClock gate (gate.markDecodeError t now true) := by
  unfold markDecodeError
  split
  · have concealed : SameClock gate (gate.conceal now true) := ⟨rfl, rfl⟩
    exact concealed.trans (sameClock_countDecodeError (gate.conceal now true) t now)
  · exact .refl gate

theorem unreliable_markDecodeError (t now : Int) :
    (gate.markDecodeError t now false).tiles.length = gate.tiles.length ∧
      (gate.markDecodeError t now false).lastUnreliableConcealment =
        if gate.HasTile t then now else gate.lastUnreliableConcealment := by
  unfold markDecodeError
  split
  · have counted := sameClock_countDecodeError (gate.conceal now false) t now
    exact ⟨counted.tiles, counted.unreliable⟩
  · exact ⟨rfl, rfl⟩

theorem sameClock_resetTile (t : Int) : SameClock gate (gate.resetTile t) := by
  unfold resetTile
  split
  · exact ⟨length_set, rfl⟩
  · exact .refl gate

theorem sameClock_foldl (op : FrameQualityGate → Nat → FrameQualityGate)
    (keeps : ∀ gate i, SameClock gate (op gate i)) (tiles : List Nat) (gate : FrameQualityGate) :
    SameClock gate (tiles.foldl op gate) := by
  induction tiles generalizing gate with
  | nil => exact .refl gate
  | cons i tiles ih => exact (keeps gate i).trans (ih (op gate i))

theorem sameClock_markIdrObserved (t now : Int) (suspicious : Bool) :
    SameClock gate (gate.markIdrObserved t now suspicious) := by
  unfold markIdrObserved
  split
  · dsimp only
    split
    · exact sameClock_setTile gate t _
    · split
      · exact ⟨length_set, rfl⟩
      · exact sameClock_setTile gate t _
  · exact .refl gate

theorem sameClock_markClean (t now : Int) : SameClock gate (gate.markClean t now) := by
  unfold markClean
  split
  · dsimp only
    split
    · exact ⟨length_set, rfl⟩
    · exact sameClock_setTile gate t _
  · exact .refl gate

theorem sameClock_consumeFirRequest (now : Int) :
    SameClock gate (gate.consumeFirRequest now).2 := by
  unfold consumeFirRequest
  split
  · exact .refl gate
  · split
    · exact .refl gate
    · exact sameClock_setTile gate 0 _

/-! ## One step -/

theorem step_clock (event : GateEvent) :
    SameClock gate (gate.step event) ∨
      ∃ t now, event = .decodeError t now false ∧
        (gate.step event).tiles.length = gate.tiles.length ∧
        (gate.step event).lastUnreliableConcealment =
          if gate.HasTile t then now else gate.lastUnreliableConcealment := by
  cases event with
  | decodeError t now reliable =>
    cases reliable with
    | true => exact .inl (sameClock_reliable gate t now)
    | false => exact .inr ⟨t, now, rfl, unreliable_markDecodeError gate t now⟩
  | idrObserved t now suspicious => exact .inl (sameClock_markIdrObserved gate t now suspicious)
  | clean t now => exact .inl (sameClock_markClean gate t now)
  | consume now => exact .inl (sameClock_consumeFirRequest gate now)
  | forceKeyframeAll now =>
    exact .inl (sameClock_foldl _ (fun gate i => sameClock_reliable gate i now) _ gate)
  | reset => exact .inl (sameClock_foldl _ (fun gate i => sameClock_resetTile gate i) _ gate)
  | resetTile t => exact .inl (sameClock_resetTile gate t)

theorem step_leaves (event : GateEvent) (required : t ∈ gate.keyframeRequired)
    (left : t ∉ (gate.step event).keyframeRequired) :
    event = .reset ∨ event = .resetTile t ∨
      ∃ now, event = .clean t now ∧ t ∈ gate.idrObserved ∧
        recoveryQuiet ≤ now - gate.lastUnreliableConcealment := by
  cases event with
  | decodeError u now reliable =>
    exact absurd ((raises_markDecodeError gate u now reliable).required required) left
  | idrObserved u now suspicious =>
    have same := (markIdrObserved_sets gate u now suspicious).1
    exact absurd (same.symm ▸ required) left
  | clean u now =>
    rcases markClean_sets gate u now with ⟨same, -⟩ | ⟨erased, -, observed, waited⟩
    · exact absurd (same.symm ▸ required) left
    · have own : t = u := by
        by_contra other
        exact left (erased.symm ▸ Finset.mem_erase.mpr ⟨other, required⟩)
      subst own
      exact .inr (.inr ⟨now, rfl, observed, waited⟩)
  | consume now =>
    have same := (consumeFirRequest_sets gate now).1
    exact absurd (same.symm ▸ required) left
  | forceKeyframeAll now =>
    exact absurd ((raises_forceKeyframeAll gate now).required required) left
  | reset => exact .inl rfl
  | resetTile u =>
    have own : t = u := by
      by_contra other
      apply left
      change t ∈ (gate.resetTile u).keyframeRequired
      unfold resetTile
      split
      · exact Finset.mem_erase.mpr ⟨other, required⟩
      · exact required
    exact .inr (.inl (congrArg _ own.symm))

theorem step_observed (event : GateEvent) (subset : gate.idrObserved ⊆ gate.keyframeRequired)
    (observed : t ∈ (gate.step event).idrObserved) :
    t ∈ gate.keyframeRequired ∧ t ∈ (gate.step event).keyframeRequired ∧
      (t ∈ gate.idrObserved ∨ ∃ now, event = .idrObserved t now false) := by
  cases event with
  | decodeError u now reliable =>
    have raises := raises_markDecodeError gate u now reliable
    have before := raises.observed observed
    exact ⟨subset before, raises.required (subset before), .inl before⟩
  | idrObserved u now suspicious =>
    obtain ⟨same, source⟩ := markIdrObserved_sets gate u now suspicious
    rcases source t observed with before | ⟨rfl, rfl, required⟩
    · exact ⟨subset before, same.symm ▸ subset before, .inl before⟩
    · exact ⟨required, same.symm ▸ required, .inr ⟨now, rfl⟩⟩
  | clean u now =>
    rcases markClean_sets gate u now with ⟨required, same⟩ | ⟨required, same, -, -⟩
    · have before : t ∈ gate.idrObserved := same ▸ observed
      exact ⟨subset before, required.symm ▸ subset before, .inl before⟩
    · have before : t ∈ gate.idrObserved.erase u := same ▸ observed
      obtain ⟨other, before⟩ := Finset.mem_erase.mp before
      exact ⟨subset before, required.symm ▸ Finset.mem_erase.mpr ⟨other, subset before⟩,
        .inl before⟩
  | consume now =>
    obtain ⟨required, same⟩ := consumeFirRequest_sets gate now
    have before : t ∈ gate.idrObserved := same ▸ observed
    exact ⟨subset before, required.symm ▸ subset before, .inl before⟩
  | forceKeyframeAll now =>
    have raises := raises_forceKeyframeAll gate now
    have before := raises.observed observed
    exact ⟨subset before, raises.required (subset before), .inl before⟩
  | reset =>
    have clears := clears_reset gate
    have before := clears.observed observed
    exact ⟨subset before, clears.required t observed (subset before), .inl before⟩
  | resetTile u =>
    have clears := clears_resetTile gate u
    have before := clears.observed observed
    exact ⟨subset before, clears.required t observed (subset before), .inl before⟩

/-! ## Runs -/

theorem run_concat (events : List GateEvent) (event : GateEvent) :
    gate.run (events ++ [event]) = (gate.run events).step event :=
  foldl_concat ..

/-- The tile entered the set with a call of the history and is in it ever since. -/
def Entered (n : Nat) (t : Int) (front : List GateEvent) (entry : GateEvent)
    (back : List GateEvent) : Prop :=
  t ∉ ((new n).run front).keyframeRequired ∧
    ∀ rest, rest <+: back → t ∈ ((new n).run (front ++ entry :: rest)).keyframeRequired

theorem Entered.concat (entered : Entered n t front entry back) (event : GateEvent)
    (stays : t ∈ ((new n).run (front ++ entry :: (back ++ [event]))).keyframeRequired) :
    Entered n t front entry (back ++ [event]) := by
  refine ⟨entered.1, ?_⟩
  intro rest initial
  rcases prefix_concat_iff.mp initial with rfl | initial
  · exact stays
  · exact entered.2 rest initial

theorem exists_entered (n : Nat) (events : List GateEvent)
    (required : t ∈ ((new n).run events).keyframeRequired) :
    ∃ front entry back, events = front ++ entry :: back ∧ Entered n t front entry back := by
  induction events using List.reverseRecOn with
  | nil => exact absurd required (Finset.notMem_empty t)
  | append_singleton events event ih =>
    by_cases before : t ∈ ((new n).run events).keyframeRequired
    · obtain ⟨front, entry, back, rfl, entered⟩ := ih before
      refine ⟨front, entry, back ++ [event], by simp, entered.concat event ?_⟩
      simpa using required
    · refine ⟨events, event, [], rfl, before, ?_⟩
      intro rest initial
      rw [prefix_nil.mp initial]
      exact required

/-- An IDR picture that is not suspicious was observed since the tile entered the set. -/
def IdrSinceEntry (n : Nat) (events : List GateEvent) (t : Int) : Prop :=
  ∃ front entry back, events = front ++ entry :: back ∧ Entered n t front entry back ∧
    ∃ now, GateEvent.idrObserved t now false ∈ back

theorem idrSinceEntry_of_observed (n : Nat) (events : List GateEvent) :
    ((new n).run events).idrObserved ⊆ ((new n).run events).keyframeRequired ∧
      ∀ t ∈ ((new n).run events).idrObserved, IdrSinceEntry n events t := by
  induction events using List.reverseRecOn with
  | nil => exact ⟨Finset.empty_subset _, fun t observed => absurd observed (Finset.notMem_empty t)⟩
  | append_singleton events event ih =>
    obtain ⟨subset, since⟩ := ih
    rw [run_concat]
    refine ⟨fun t observed => (step_observed _ event subset observed).2.1, ?_⟩
    intro t observed
    obtain ⟨required, stays, source⟩ := step_observed _ event subset observed
    rw [← run_concat] at stays
    rcases source with before | ⟨now, rfl⟩
    · obtain ⟨front, entry, back, rfl, entered, now, seen⟩ := since t before
      refine ⟨front, entry, back ++ [event], by simp, entered.concat event (by simpa using stays),
        now, mem_append_left _ seen⟩
    · obtain ⟨front, entry, back, rfl, entered⟩ := exists_entered n events required
      exact ⟨front, entry, back ++ [.idrObserved t now false], by simp,
        entered.concat _ (by simpa using stays), now, by simp⟩

theorem tiles_run (n : Nat) (events : List GateEvent) :
    ((new n).run events).tiles.length = n := by
  induction events using List.reverseRecOn with
  | nil => exact length_replicate
  | append_singleton events event ih =>
    rw [run_concat]
    rcases step_clock ((new n).run events) event with same | ⟨t, now, -, same, -⟩
    · exact same.tiles.trans ih
    · exact same.trans ih

theorem unreliable_le (n : Nat) (events : List GateEvent)
    (ordered : (events.filterMap GateEvent.time).Pairwise (· ≤ ·))
    (error : GateEvent.decodeError u seen false ∈ events) (low : 0 ≤ u) (high : u < n) :
    seen ≤ ((new n).run events).lastUnreliableConcealment := by
  induction events using List.reverseRecOn with
  | nil => cases error
  | append_singleton events event ih =>
    rw [filterMap_append, pairwise_append] at ordered
    obtain ⟨front, -, late⟩ := ordered
    have has : ((new n).run events).HasTile u := ⟨low, by rw [tiles_run]; exact high⟩
    rw [run_concat]
    rcases mem_append.mp error with earlier | last
    · have before := ih front earlier
      rcases step_clock ((new n).run events) event with same | ⟨t, now, rfl, -, clock⟩
      · rw [same.unreliable]
        exact before
      · rw [clock]
        split
        · exact late seen (mem_filterMap.mpr ⟨.decodeError u seen false, earlier, rfl⟩) now
            (by simp [GateEvent.time])
        · exact before
    · obtain rfl := mem_singleton.mp last
      change seen ≤ (((new n).run events).markDecodeError u seen false).lastUnreliableConcealment
      rw [(unreliable_markDecodeError _ u seen).2, if_pos has]

/-- Observed IDR pictures belong to tiles that need one, and a tile leaves the set by a reset
or by a clean picture after such an IDR picture, with quiet since the last unreliable
concealment. -/
theorem keyframe_gate_sticky (n : Nat) (events : List GateEvent)
    (ordered : (events.filterMap GateEvent.time).Pairwise (· ≤ ·)) :
    ((new n).run events).idrObserved ⊆ ((new n).run events).keyframeRequired ∧
      ∀ before event after t, events = before ++ event :: after →
        t ∈ ((new n).run before).keyframeRequired →
        t ∉ ((new n).run (before ++ [event])).keyframeRequired →
        event = .reset ∨ event = .resetTile t ∨
          ∃ now, event = .clean t now ∧ IdrSinceEntry n before t ∧
            ∀ u seen, GateEvent.decodeError u seen false ∈ before → 0 ≤ u → u < n →
              recoveryQuiet ≤ now - seen := by
  refine ⟨(idrSinceEntry_of_observed n events).1, ?_⟩
  rintro before event after t rfl required left
  rw [run_concat] at left
  rcases step_leaves _ event required left with reset | resetTile | ⟨now, rfl, observed, waited⟩
  · exact .inl reset
  · exact .inr (.inl resetTile)
  · refine .inr (.inr ⟨now, rfl, (idrSinceEntry_of_observed n before).2 t observed, ?_⟩)
    intro u seen error low high
    rw [filterMap_append, pairwise_append] at ordered
    have last := unreliable_le n before ordered.1 error low high
    omega

def stickyEvents : List GateEvent :=
  [.decodeError 0 1000000000 false, .idrObserved 0 1100000000 true, .clean 0 3000000000,
    .idrObserved 0 3100000000 false]

theorem keyframe_gate_sticky_singleTile :
    (0 : Int) ∈ ((new 1).run stickyEvents).keyframeRequired ∧
      (0 : Int) ∉ ((new 1).run (stickyEvents ++ [.clean 0 3200000000])).keyframeRequired ∧
      IdrSinceEntry 1 stickyEvents 0 := by
  have required : (0 : Int) ∈ ((new 1).run stickyEvents).keyframeRequired := by decide
  have left : (0 : Int) ∉
      ((new 1).run (stickyEvents ++ [.clean 0 3200000000])).keyframeRequired := by decide
  refine ⟨required, left, ?_⟩
  have leaves := (keyframe_gate_sticky 1 (stickyEvents ++ [.clean 0 3200000000]) (by decide)).2
    stickyEvents (.clean 0 3200000000) [] 0 rfl required left
  rcases leaves with reset | resetTile | ⟨now, -, since, -⟩
  · cases reset
  · cases resetTile
  · exact since

end Scshr.Media.FrameQualityGate
