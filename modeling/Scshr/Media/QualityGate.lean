import Mathlib.Data.Finset.Basic

/-! The keyframe gate (`FrameQualityGate`).  Full intra requests are counted in the slot of
tile 0 whichever tile asks for them, while a recovery clears the slot of the tile that
recovered. -/
namespace Scshr.Media

open List

structure GateTile where
  badStreak : Nat := 0
  needsRealFrame : Bool := false
  firLast : Int := 0
  firAttempts : Nat := 0
  capWarned : Bool := false
  cycleCount : Nat := 0
  idrObservedAt : Int := 0
  deriving DecidableEq

structure FrameQualityGate where
  tiles : List GateTile
  keyframeRequired : Finset Int := ∅
  idrObserved : Finset Int := ∅
  lastConcealment : Int := 0
  lastUnreliableConcealment : Int := 0
  flickerEvents : Nat := 0
  deriving DecidableEq

/-! The tunables, in nanoseconds; nothing in the program assigns them. -/

def reArmInterval : Int := 1000000000

def reArmCap : Nat := 8

def reArmSlowInterval : Int := 4000000000

def postIdrGrace : Int := 500000000

def recoveryQuiet : Int := 1500000000

def GateTile.granted (state : GateTile) (now : Int) : GateTile :=
  { state with
    firLast := now
    firAttempts := state.firAttempts + 1
    capWarned := state.capWarned || decide (reArmCap ≤ state.firAttempts) }

namespace FrameQualityGate

def new (n : Nat) : FrameQualityGate := { tiles := List.replicate n {} }

def tile (gate : FrameQualityGate) (t : Int) : GateTile := gate.tiles.getD t.toNat {}

def setTile (gate : FrameQualityGate) (t : Int) (state : GateTile) : FrameQualityGate :=
  { gate with tiles := gate.tiles.set t.toNat state }

def firAttemptsTile0 (gate : FrameQualityGate) : Nat := (gate.tile 0).firAttempts

def HasTile (gate : FrameQualityGate) (t : Int) : Prop := 0 ≤ t ∧ t < gate.tiles.length

instance (gate : FrameQualityGate) (t : Int) : Decidable (gate.HasTile t) :=
  inferInstanceAs (Decidable (_ ∧ _))

/-- The two times every decode error in range leaves, also a suppressed one. -/
def conceal (gate : FrameQualityGate) (now : Int) (reliable : Bool) : FrameQualityGate :=
  { gate with
    lastConcealment := now
    lastUnreliableConcealment := if reliable then gate.lastUnreliableConcealment else now }

/-- The first error of an episode on the tile, whose entries are now `state`. -/
def requireKeyframe (gate : FrameQualityGate) (t : Int) (state : GateTile) :
    FrameQualityGate :=
  { gate.setTile t { state with
      firAttempts := 0, capWarned := false, cycleCount := state.cycleCount + 1 } with
    keyframeRequired := insert t gate.keyframeRequired
    idrObserved := gate.idrObserved.erase t
    flickerEvents := gate.flickerEvents + 1 }

def countDecodeError (gate : FrameQualityGate) (t now : Int) : FrameQualityGate :=
  let state := gate.tile t
  if 0 < state.idrObservedAt ∧ now - state.idrObservedAt < postIdrGrace then gate
  else
    let state := { state with badStreak := state.badStreak + 1, needsRealFrame := true }
    if t ∈ gate.keyframeRequired then gate.setTile t state
    else gate.requireKeyframe t state

def markDecodeError (gate : FrameQualityGate) (t now : Int) (reliable : Bool) :
    FrameQualityGate :=
  if gate.HasTile t then (gate.conceal now reliable).countDecodeError t now else gate

def markIdrObserved (gate : FrameQualityGate) (t now : Int) (suspicious : Bool) :
    FrameQualityGate :=
  if gate.HasTile t then
    let gate := gate.setTile t { gate.tile t with idrObservedAt := now }
    if suspicious then gate
    else if t ∈ gate.keyframeRequired then
      { gate with idrObserved := insert t gate.idrObserved }
    else gate
  else gate

def markClean (gate : FrameQualityGate) (t now : Int) : FrameQualityGate :=
  if gate.HasTile t then
    let state := { gate.tile t with badStreak := 0, needsRealFrame := false }
    if t ∈ gate.keyframeRequired ∧ t ∈ gate.idrObserved ∧
        recoveryQuiet ≤ now - gate.lastUnreliableConcealment then
      { gate.setTile t { state with
          firAttempts := 0, capWarned := false
          cycleCount := if 3 ≤ state.cycleCount then 0 else state.cycleCount } with
        keyframeRequired := gate.keyframeRequired.erase t
        idrObserved := gate.idrObserved.erase t }
    else gate.setTile t state
  else gate

def firInterval (gate : FrameQualityGate) : Int :=
  if reArmCap ≤ gate.firAttemptsTile0 then reArmSlowInterval else reArmInterval

def consumeFirRequest (gate : FrameQualityGate) (now : Int) : Finset Int × FrameQualityGate :=
  if gate.keyframeRequired = ∅ then (∅, gate)
  else
    if now - (gate.tile 0).firLast < gate.firInterval then (∅, gate)
    else ({0}, gate.setTile 0 ((gate.tile 0).granted now))

def forceKeyframeAll (gate : FrameQualityGate) (now : Int) : FrameQualityGate :=
  (List.range gate.tiles.length).foldl
    (fun gate (i : Nat) => gate.markDecodeError i now true) gate

def resetTile (gate : FrameQualityGate) (t : Int) : FrameQualityGate :=
  if gate.HasTile t then
    { gate.setTile t { firLast := (gate.tile t).firLast } with
      keyframeRequired := gate.keyframeRequired.erase t
      idrObserved := gate.idrObserved.erase t }
  else gate

def reset (gate : FrameQualityGate) : FrameQualityGate :=
  (List.range gate.tiles.length).foldl (fun gate (i : Nat) => gate.resetTile i) gate

end FrameQualityGate

inductive GateEvent where
  | decodeError (t now : Int) (reliable : Bool)
  | idrObserved (t now : Int) (suspicious : Bool)
  | clean (t now : Int)
  | consume (now : Int)
  | forceKeyframeAll (now : Int)
  | reset
  | resetTile (t : Int)
  deriving DecidableEq

def GateEvent.time : GateEvent → Option Int
  | .decodeError _ now _ | .idrObserved _ now _ | .clean _ now | .consume now
  | .forceKeyframeAll now => some now
  | .reset | .resetTile _ => none

namespace FrameQualityGate

def step (gate : FrameQualityGate) : GateEvent → FrameQualityGate
  | .decodeError t now reliable => gate.markDecodeError t now reliable
  | .idrObserved t now suspicious => gate.markIdrObserved t now suspicious
  | .clean t now => gate.markClean t now
  | .consume now => (gate.consumeFirRequest now).2
  | .forceKeyframeAll now => gate.forceKeyframeAll now
  | .reset => gate.reset
  | .resetTile t => gate.resetTile t

def run (gate : FrameQualityGate) (events : List GateEvent) : FrameQualityGate :=
  events.foldl step gate

def Grants (gate : FrameQualityGate) : GateEvent → Prop
  | .consume now => (gate.consumeFirRequest now).1 = {0}
  | _ => False

instance (gate : FrameQualityGate) : (event : GateEvent) → Decidable (gate.Grants event)
  | .consume now => inferInstanceAs (Decidable ((gate.consumeFirRequest now).1 = {0}))
  | .decodeError .. | .idrObserved .. | .clean .. | .forceKeyframeAll _ | .reset
  | .resetTile _ => instDecidableFalse

def grants : FrameQualityGate → List GateEvent → Nat
  | _, [] => 0
  | gate, event :: events =>
    (if gate.Grants event then 1 else 0) + grants (gate.step event) events

def Throughout (P : FrameQualityGate → Prop) : FrameQualityGate → List GateEvent → Prop
  | _, [] => True
  | gate, event :: events => P (gate.step event) ∧ Throughout P (gate.step event) events

/-- The fast cadence is back: from `gate` on, in the first loss episode that follows, a
request is granted as soon as the fast interval has passed since the last grant, as long as
the episode has had fewer than `re_arm_cap` grants. -/
def CadenceRestarts (gate : FrameQualityGate) (since : Int) : Prop :=
  ∀ (idle episode : List GateEvent) (now : Int),
    (since :: (idle ++ episode ++ [GateEvent.consume now]).filterMap GateEvent.time).Pairwise
      (· ≤ ·) →
    Throughout (·.keyframeRequired = ∅) gate idle →
    Throughout (·.keyframeRequired.Nonempty) (gate.run idle) episode → episode ≠ [] →
    grants (gate.run idle) episode < reArmCap →
    reArmInterval ≤ now - (((gate.run idle).run episode).tile 0).firLast →
    (((gate.run idle).run episode).consumeFirRequest now).1 = {0}

variable {gate : FrameQualityGate} {t now last start : Int} {attempts : Nat}

theorem tile_setTile_zero (gate : FrameQualityGate) (state : GateTile) (has : gate.HasTile t) :
    (gate.setTile t state).tile 0 = if t = 0 then state else gate.tile 0 := by
  obtain ⟨nonneg, inside⟩ := has
  unfold tile setTile
  by_cases zero : t = 0
  · subst zero
    have bound : 0 < gate.tiles.length := by omega
    simp [getD_eq_getElem?_getD, bound]
  · have apart : t.toNat ≠ 0 := by omega
    simp [getD_eq_getElem?_getD, apart, zero]

theorem firAttemptsTile0_setTile_le (gate : FrameQualityGate) (has : gate.HasTile t)
    (fewer : state.firAttempts ≤ (gate.tile t).firAttempts) :
    (gate.setTile t state).firAttemptsTile0 ≤ gate.firAttemptsTile0 := by
  unfold firAttemptsTile0
  rw [tile_setTile_zero gate state has]
  split
  next zero => exact zero ▸ fewer
  next => exact Nat.le_refl _

theorem firAttemptsTile0_countDecodeError_le (gate : FrameQualityGate) (now : Int)
    (has : gate.HasTile t) :
    (gate.countDecodeError t now).firAttemptsTile0 ≤ gate.firAttemptsTile0 := by
  unfold countDecodeError
  dsimp only
  split
  · exact Nat.le_refl _
  · split
    · exact firAttemptsTile0_setTile_le gate has (Nat.le_refl _)
    · exact firAttemptsTile0_setTile_le gate has (Nat.zero_le _)

theorem firAttemptsTile0_markDecodeError_le (gate : FrameQualityGate) (t now : Int)
    (reliable : Bool) :
    (gate.markDecodeError t now reliable).firAttemptsTile0 ≤ gate.firAttemptsTile0 := by
  unfold markDecodeError
  split
  next has => exact firAttemptsTile0_countDecodeError_le (gate.conceal now reliable) now has
  next => exact Nat.le_refl _

theorem firAttemptsTile0_markIdrObserved_le (gate : FrameQualityGate) (t now : Int)
    (suspicious : Bool) :
    (gate.markIdrObserved t now suspicious).firAttemptsTile0 ≤ gate.firAttemptsTile0 := by
  unfold markIdrObserved
  split
  next has =>
    have observed : (gate.setTile t { gate.tile t with idrObservedAt := now }).firAttemptsTile0 ≤
        gate.firAttemptsTile0 := firAttemptsTile0_setTile_le gate has (Nat.le_refl _)
    dsimp only
    split
    · exact observed
    · split <;> exact observed
  next => exact Nat.le_refl _

theorem firAttemptsTile0_markClean_le (gate : FrameQualityGate) (t now : Int) :
    (gate.markClean t now).firAttemptsTile0 ≤ gate.firAttemptsTile0 := by
  unfold markClean
  split
  next has =>
    dsimp only
    split
    · exact firAttemptsTile0_setTile_le gate has (Nat.zero_le _)
    · exact firAttemptsTile0_setTile_le gate has (Nat.le_refl _)
  next => exact Nat.le_refl _

theorem firAttemptsTile0_resetTile_le (gate : FrameQualityGate) (t : Int) :
    (gate.resetTile t).firAttemptsTile0 ≤ gate.firAttemptsTile0 := by
  unfold resetTile
  split
  next has => exact firAttemptsTile0_setTile_le gate has (Nat.zero_le _)
  next => exact Nat.le_refl _

theorem firAttemptsTile0_foldl_le (op : FrameQualityGate → Nat → FrameQualityGate)
    (keeps : ∀ gate i, (op gate i).firAttemptsTile0 ≤ gate.firAttemptsTile0)
    (tiles : List Nat) (gate : FrameQualityGate) :
    (tiles.foldl op gate).firAttemptsTile0 ≤ gate.firAttemptsTile0 := by
  induction tiles generalizing gate with
  | nil => exact Nat.le_refl _
  | cons i tiles ih => exact (ih (op gate i)).trans (keeps gate i)

theorem consumeFirRequest_granted (gate : FrameQualityGate) (now : Int)
    (lossy : gate.keyframeRequired.Nonempty)
    (waited : gate.firInterval ≤ now - (gate.tile 0).firLast) :
    gate.consumeFirRequest now = ({0}, gate.setTile 0 ((gate.tile 0).granted now)) := by
  unfold consumeFirRequest
  rw [if_neg lossy.ne_empty, if_neg (Int.not_lt.mpr waited)]

theorem not_grants_of_empty (gate : FrameQualityGate) (event : GateEvent)
    (quiet : gate.keyframeRequired = ∅) : ¬ gate.Grants event := by
  cases event with
  | consume now => simp [Grants, consumeFirRequest, quiet]
  | _ => exact id

theorem firAttemptsTile0_consume_le (gate : FrameQualityGate) (now : Int) :
    (gate.consumeFirRequest now).2.firAttemptsTile0 ≤
      gate.firAttemptsTile0 + if gate.Grants (.consume now) then 1 else 0 := by
  unfold Grants consumeFirRequest
  dsimp only
  split
  · exact Nat.le_add_right _ _
  · split
    · exact Nat.le_add_right _ _
    · rw [if_pos rfl]
      unfold firAttemptsTile0 tile setTile
      cases gate.tiles <;> simp [GateTile.granted]

theorem firAttemptsTile0_step_le (gate : FrameQualityGate) (event : GateEvent) :
    (gate.step event).firAttemptsTile0 ≤
      gate.firAttemptsTile0 + if gate.Grants event then 1 else 0 := by
  cases event with
  | consume now => exact firAttemptsTile0_consume_le gate now
  | decodeError t now reliable => exact firAttemptsTile0_markDecodeError_le gate t now reliable
  | idrObserved t now suspicious =>
    exact firAttemptsTile0_markIdrObserved_le gate t now suspicious
  | clean t now => exact firAttemptsTile0_markClean_le gate t now
  | resetTile t => exact firAttemptsTile0_resetTile_le gate t
  | forceKeyframeAll now =>
    exact firAttemptsTile0_foldl_le _
      (fun gate i => firAttemptsTile0_markDecodeError_le gate i now true) _ gate
  | reset =>
    exact firAttemptsTile0_foldl_le _ (fun gate i => firAttemptsTile0_resetTile_le gate i) _ gate

theorem grants_cons (gate : FrameQualityGate) (event : GateEvent) (events : List GateEvent) :
    gate.grants (event :: events) =
      (if gate.Grants event then 1 else 0) + (gate.step event).grants events :=
  rfl

theorem run_cons (gate : FrameQualityGate) (event : GateEvent) (events : List GateEvent) :
    gate.run (event :: events) = (gate.step event).run events :=
  foldl_cons ..

theorem firAttemptsTile0_run_le (events : List GateEvent) (gate : FrameQualityGate) :
    (gate.run events).firAttemptsTile0 ≤ gate.firAttemptsTile0 + gate.grants events := by
  induction events generalizing gate with
  | nil => exact Nat.le_refl _
  | cons event events ih =>
    calc ((gate.step event).run events).firAttemptsTile0
        ≤ (gate.step event).firAttemptsTile0 + (gate.step event).grants events := ih _
      _ ≤ gate.firAttemptsTile0 + gate.grants (event :: events) := by
          have counted := firAttemptsTile0_step_le gate event
          rw [grants_cons]
          omega

theorem grants_idle (idle : List GateEvent) (gate : FrameQualityGate)
    (quiet : gate.keyframeRequired = ∅)
    (stays : Throughout (·.keyframeRequired = ∅) gate idle) : gate.grants idle = 0 := by
  induction idle generalizing gate with
  | nil => rfl
  | cons event events ih =>
    rw [grants_cons, if_neg (not_grants_of_empty gate event quiet),
      ih (gate.step event) stays.1 stays.2]

theorem throughout_run (P : FrameQualityGate → Prop) (events : List GateEvent)
    (gate : FrameQualityGate) (all : Throughout P gate events) (some : events ≠ []) :
    P (gate.run events) := by
  induction events generalizing gate with
  | nil => exact absurd rfl some
  | cons event events ih =>
    cases events with
    | nil => exact all.1
    | cons next rest => exact ih (gate.step event) all.2 (cons_ne_nil _ _)

theorem cadenceRestarts_of_zero (gate : FrameQualityGate) (since : Int)
    (quiet : gate.keyframeRequired = ∅) (none : gate.firAttemptsTile0 = 0) :
    gate.CadenceRestarts since := by
  intro idle episode now _ idleQuiet lossy begun few waited
  have idleCount := firAttemptsTile0_run_le idle gate
  rw [none, grants_idle idle gate quiet idleQuiet] at idleCount
  have count := firAttemptsTile0_run_le episode (gate.run idle)
  have below : ((gate.run idle).run episode).firAttemptsTile0 < reArmCap := by omega
  have fast : ((gate.run idle).run episode).firInterval = reArmInterval := by
    unfold firInterval
    rw [if_neg (Nat.not_le.mpr below)]
  rw [consumeFirRequest_granted _ _ (throughout_run _ episode _ lossy begun) (fast ▸ waited)]

def slowRequests : Int → Nat → List GateEvent
  | _, 0 => []
  | start, m + 1 => .consume start :: slowRequests (start + reArmSlowInterval) m

theorem firInterval_le_slow (gate : FrameQualityGate) : gate.firInterval ≤ reArmSlowInterval := by
  unfold firInterval
  split <;> decide

structure Asking (gate : FrameQualityGate) (attempts : Nat) (last : Int) : Prop where
  lossy : gate.keyframeRequired.Nonempty
  has : gate.HasTile 0
  attempts : (gate.tile 0).firAttempts = attempts
  last : (gate.tile 0).firLast = last

theorem Asking.consume (asking : gate.Asking attempts last)
    (waited : reArmSlowInterval ≤ now - last) :
    gate.Grants (.consume now) ∧ (gate.step (.consume now)).Asking (attempts + 1) now := by
  obtain ⟨lossy, has, rfl, rfl⟩ := asking
  have granted := consumeFirRequest_granted gate now lossy (gate.firInterval_le_slow.trans waited)
  have after : gate.step (.consume now) = gate.setTile 0 ((gate.tile 0).granted now) :=
    congrArg Prod.snd granted
  have slot := tile_setTile_zero gate ((gate.tile 0).granted now) has
  rw [if_pos rfl] at slot
  rw [after]
  exact
    ⟨congrArg Prod.fst granted,
      { lossy := lossy
        has := by simpa [HasTile, setTile] using has
        attempts := congrArg GateTile.firAttempts slot
        last := congrArg GateTile.firLast slot }⟩

theorem Asking.slow (m : Nat) (asking : gate.Asking attempts last)
    (waited : reArmSlowInterval ≤ start - last) :
    Throughout (·.keyframeRequired.Nonempty) gate (slowRequests start (m + 1)) ∧
    gate.grants (slowRequests start (m + 1)) = m + 1 ∧
    (gate.run (slowRequests start (m + 1))).Asking (attempts + (m + 1))
      (start + m * reArmSlowInterval) := by
  induction m generalizing gate attempts last start with
  | zero =>
    obtain ⟨granted, next⟩ := asking.consume waited
    refine ⟨⟨next.lossy, trivial⟩, ?_, ?_⟩
    · rw [slowRequests, grants_cons, if_pos granted]
      rfl
    · have same : start + ((0 : Nat) : Int) * reArmSlowInterval = start := by omega
      rw [same]
      exact next
  | succ m ih =>
    obtain ⟨granted, next⟩ := asking.consume waited
    have again : reArmSlowInterval ≤ start + reArmSlowInterval - start := by omega
    obtain ⟨lossy, count, done⟩ := ih next again
    refine ⟨⟨next.lossy, lossy⟩, ?_, ?_⟩
    · rw [slowRequests, grants_cons, if_pos granted, count]
      omega
    · have total : attempts + 1 + (m + 1) = attempts + (m + 1 + 1) := by omega
      have shifted : start + reArmSlowInterval + m * reArmSlowInterval =
          start + ((m + 1 : Nat) : Int) * reArmSlowInterval := by
        unfold reArmSlowInterval
        omega
      rw [total, shifted] at done
      exact done

theorem slowRequests_ordered (m : Nat) (first : before ≤ start)
    (late : start + m * reArmSlowInterval ≤ last) :
    (before :: (slowRequests start (m + 1) ++ [GateEvent.consume last]).filterMap
      GateEvent.time).IsChain (· ≤ ·) := by
  induction m generalizing before start with
  | zero =>
    refine .cons_cons first (.cons_cons ?_ (.singleton last))
    omega
  | succ m ih =>
    refine .cons_cons first (ih ?_ ?_)
    · unfold reArmSlowInterval
      omega
    · unfold reArmSlowInterval at late ⊢
      omega

theorem asking_countDecodeError (gate : FrameQualityGate) (has : gate.HasTile t) (other : t ≠ 0)
    (sound : t ∉ gate.keyframeRequired) (late : postIdrGrace ≤ now - (gate.tile t).idrObservedAt) :
    (gate.countDecodeError t now).Asking gate.firAttemptsTile0 (gate.tile 0).firLast := by
  have past : ¬ (0 < (gate.tile t).idrObservedAt ∧
      now - (gate.tile t).idrObservedAt < postIdrGrace) :=
    fun grace => absurd grace.2 (Int.not_lt.mpr late)
  have slot : ∀ state, (gate.requireKeyframe t state).tile 0 = gate.tile 0 := by
    intro state
    exact (tile_setTile_zero gate _ has).trans (if_neg other)
  obtain ⟨nonneg, inside⟩ := has
  unfold countDecodeError
  dsimp only
  rw [if_neg past, if_neg sound]
  exact
    { lossy := ⟨t, Finset.mem_insert_self _ _⟩
      has := by
        refine ⟨Int.le_refl 0, ?_⟩
        simp only [requireKeyframe, setTile, length_set]
        omega
      attempts := congrArg GateTile.firAttempts (slot _)
      last := congrArg GateTile.firLast (slot _) }

def starvation (t start : Int) : List GateEvent :=
  .decodeError t start true :: slowRequests start 7

theorem asking_starvation (gate : FrameQualityGate) (has : gate.HasTile t) (other : t ≠ 0)
    (sound : t ∉ gate.keyframeRequired) (late : postIdrGrace ≤ start - (gate.tile t).idrObservedAt)
    (waited : reArmSlowInterval ≤ start - (gate.tile 0).firLast) :
    Throughout (·.keyframeRequired.Nonempty) gate (starvation t start) ∧
    gate.grants (starvation t start) = 7 ∧
    (gate.run (starvation t start)).Asking (gate.firAttemptsTile0 + 7)
      (start + 6 * reArmSlowInterval) := by
  have error : gate.step (.decodeError t start true) =
      (gate.conceal start true).countDecodeError t start := if_pos has
  have broken : ((gate.conceal start true).countDecodeError t start).Asking
      gate.firAttemptsTile0 (gate.tile 0).firLast :=
    asking_countDecodeError (gate.conceal start true) has other sound late
  rw [← error] at broken
  obtain ⟨lossy, count, capped⟩ := broken.slow 6 waited
  have quietStep : ¬ gate.Grants (.decodeError t start true) := id
  refine ⟨⟨broken.lossy, lossy⟩, ?_, ?_⟩
  · rw [starvation, grants_cons, if_neg quietStep, count]
  · rw [starvation, run_cons]
    exact capped

theorem starvation_ordered (first : since ≤ start) (late : start + 6 * reArmSlowInterval ≤ last) :
    (since :: (starvation t start ++ [GateEvent.consume last]).filterMap
      GateEvent.time).Pairwise (· ≤ ·) := by
  apply isChain_iff_pairwise.mp
  exact .cons_cons first (slowRequests_ordered 6 (Int.le_refl start) late)

theorem Asking.refused (asking : gate.Asking attempts last) (capped : reArmCap ≤ attempts) :
    (gate.consumeFirRequest (last + reArmInterval)).1 = ∅ := by
  obtain ⟨lossy, -, rfl, rfl⟩ := asking
  have slow : gate.firInterval = reArmSlowInterval := if_pos capped
  have early : (gate.tile 0).firLast + reArmInterval - (gate.tile 0).firLast <
      gate.firInterval := by
    rw [slow]
    unfold reArmInterval reArmSlowInterval
    omega
  unfold consumeFirRequest
  rw [if_neg lossy.ne_empty, if_pos early]

theorem not_cadenceRestarts (gate : FrameQualityGate) (since : Int) (has : gate.HasTile t)
    (other : t ≠ 0) (quiet : gate.keyframeRequired = ∅) (counted : gate.firAttemptsTile0 ≠ 0) :
    ¬ gate.CadenceRestarts since := by
  intro restarts
  -- late enough for every clock the gate compares with
  obtain ⟨start, first, waited, late⟩ : ∃ start, since ≤ start ∧
      reArmSlowInterval ≤ start - (gate.tile 0).firLast ∧
      postIdrGrace ≤ start - (gate.tile t).idrObservedAt :=
    ⟨max since (max ((gate.tile 0).firLast + reArmSlowInterval)
      ((gate.tile t).idrObservedAt + postIdrGrace)), by omega, by omega, by omega⟩
  have sound : t ∉ gate.keyframeRequired := quiet ▸ Finset.notMem_empty t
  obtain ⟨lossy, count, asking⟩ := asking_starvation gate has other sound late waited
  have elapsed : reArmInterval ≤ start + 6 * reArmSlowInterval + reArmInterval -
      ((gate.run (starvation t start)).tile 0).firLast := by
    rw [asking.last]
    omega
  have few : gate.grants (starvation t start) < reArmCap := by
    rw [count]
    decide
  have ordered := starvation_ordered (t := t) first
    (show start + 6 * reArmSlowInterval ≤ start + 6 * reArmSlowInterval + reArmInterval by
      unfold reArmInterval
      omega)
  have granted := restarts [] (starvation t start) _ ordered trivial lossy
    (cons_ne_nil _ _) few elapsed
  have refused := asking.refused (show 8 ≤ gate.firAttemptsTile0 + 7 by omega)
  exact absurd (granted.symm.trans refused) (Finset.singleton_ne_empty 0)

theorem markClean_recovers (gate : FrameQualityGate) (lossy : gate.keyframeRequired.Nonempty)
    (quiet : (gate.markClean t now).keyframeRequired = ∅) :
    (gate.markClean t now).HasTile t ∧
      (gate.markClean t now).firAttemptsTile0 = if t = 0 then 0 else gate.firAttemptsTile0 := by
  unfold markClean at quiet ⊢
  split at quiet
  next has =>
    rw [if_pos has]
    dsimp only at quiet ⊢
    split at quiet
    next recovers =>
      rw [if_pos recovers]
      refine ⟨?_, ?_⟩
      · simpa [HasTile, setTile] using has
      · refine (congrArg GateTile.firAttempts (tile_setTile_zero gate _ has)).trans ?_
        split <;> rfl
    next => exact absurd quiet lossy.ne_empty
  next => exact absurd quiet lossy.ne_empty

/-- After the recovery that ends a loss episode, the fast cadence is back exactly when tile 0
recovered last or no request was counted. -/
theorem cadence_restarts_iff (n : Nat) (events : List GateEvent) (t now : Int)
    (lossy : ((new n).run events).keyframeRequired.Nonempty)
    (quiet : ((new n).run (events ++ [.clean t now])).keyframeRequired = ∅) :
    ((new n).run (events ++ [.clean t now])).CadenceRestarts now ↔
      t = 0 ∨ ((new n).run events).firAttemptsTile0 = 0 := by
  have last : (new n).run (events ++ [.clean t now]) = ((new n).run events).markClean t now := by
    unfold run
    rw [foldl_append]
    rfl
  rw [last] at quiet ⊢
  obtain ⟨has, count⟩ := markClean_recovers _ lossy quiet
  by_cases zero : t = 0
  · rw [if_pos zero] at count
    exact iff_of_true (cadenceRestarts_of_zero _ now quiet count) (.inl zero)
  · rw [if_neg zero] at count
    rw [or_iff_right zero]
    constructor
    · intro restarts
      by_contra counted
      exact not_cadenceRestarts _ now has zero quiet (count ▸ counted) restarts
    · intro none
      exact cadenceRestarts_of_zero _ now quiet (count.trans none)

/-- The single tile of a gate breaks, is asked for twice and recovers. -/
theorem cadence_restarts_singleTile :
    let events : List GateEvent :=
      [.decodeError 0 2000000000 true, .consume 2000000000, .consume 3000000000,
        .idrObserved 0 3500000000 false]
    ((new 1).run events).firAttemptsTile0 = 2 ∧
      ((new 1).run (events ++ [.clean 0 3600000000])).CadenceRestarts 3600000000 :=
  ⟨by decide, (cadence_restarts_iff 1 _ 0 _ (by decide) (by decide)).mpr (.inl rfl)⟩

/-- Tile 1 of two breaks, is asked for eight times and recovers; when it breaks again, the
first request, more than the fast interval after the last one, is refused. -/
theorem cadence_kept_slow :
    let events : List GateEvent :=
      .decodeError 1 1000000000 true ::
        (List.range 8).map (fun i => .consume ((i + 1 : Nat) * reArmInterval)) ++
        [.idrObserved 1 8100000000 false, .clean 1 8200000000]
    ((new 2).run events).keyframeRequired = ∅ ∧
      ((new 2).run events).firAttemptsTile0 = 8 ∧
      let broken := ((new 2).run events).run [.decodeError 1 9000000000 true]
      broken.keyframeRequired = {1} ∧ (broken.tile 0).firLast = 8000000000 ∧
        (broken.consumeFirRequest 9500000000).1 = ∅ := by
  decide

end FrameQualityGate

end Scshr.Media
