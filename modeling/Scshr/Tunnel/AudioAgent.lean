import Scshr.Tunnel.AudioRelay

/-! The audio agent (`tools/mac-tunnel/audio_agent_darwin.go`): the loop of `tapper.serve` over
commands and ticks.  A tap mutes what it taps, so one that is built while nobody listens and the
session is on console silences the person at the Mac. -/
namespace Scshr.Tunnel.AudioAgent

open Common Tunnel

structure Listing where
  procs : Option (List UInt32)
  builds : Bool
  deriving DecidableEq, Repr

/-- The members of `tapper` the loop changes; `taps` counts the taps that were built. -/
structure Tapper where
  procs : List UInt32
  tap : Option (List UInt32)
  taps : Nat
  forward : Bool
  deriving DecidableEq, Repr

namespace Tapper

def teardown (t : Tapper) : Tapper := { t with tap := none }

def stop (t : Tapper) : Tapper := { t.teardown with procs := [] }

def poll (t : Tapper) (listing : Listing) : Tapper :=
  match listing.procs with
  | none => t
  | some procs =>
      if procs = t.procs ∧ (t.tap ≠ none ∨ procs = []) then t
      else if procs = [] then { t.teardown with procs := procs }
      else if listing.builds then
        { t with procs := procs, tap := some procs, taps := t.taps + 1 }
      else { t.teardown with procs := [] }

end Tapper

/-- What the system shows during one round: the console, the permission, up to two listings, and
whether the tap was silent for too long. -/
structure Seen where
  onConsole : Bool
  granted : Bool
  first : Listing
  second : Listing
  silent : Bool
  deriving DecidableEq, Repr

structure Agent where
  tapper : Tapper
  started : Bool
  standby : Bool
  asked : Bool
  granted : Bool
  ticks : Nat
  deriving DecidableEq, Repr

inductive Phase where
  | serving (agent : Agent)
  | ended (tapper : Tapper)
  deriving DecidableEq, Repr

def Phase.tapper : Phase → Tapper
  | serving agent => agent.tapper
  | ended tapper => tapper

/-- The cases of the `select`; statistics and outgoing packets change nothing. -/
inductive AgentEvent where
  | command (cmd : UInt8) (seen : Seen)
  | tick (seen : Seen)
  | idle
  | stopReq
  | disconnect
  deriving DecidableEq, Repr

namespace Agent

def serve (tapper : Tapper) (seen : Seen) : Agent where
  tapper := if seen.granted && !seen.onConsole then tapper.poll seen.first else tapper
  started := false
  standby := seen.granted && !seen.onConsole
  asked := false
  granted := seen.granted
  ticks := 0

def onStart (agent : Agent) (seen : Seen) : Agent :=
  if agent.started then agent
  else
    { agent with
      tapper := { agent.tapper with forward := true }.poll seen.first
      started := true
      asked := agent.asked || !seen.granted }

def onStop (agent : Agent) (seen : Seen) : Agent :=
  if !agent.started then agent
  else if seen.onConsole || !seen.granted then
    { agent with tapper := { agent.tapper with forward := false }.stop, started := false }
  else
    { agent with
      tapper := { agent.tapper with forward := false }
      started := false
      standby := true }

/-- The console part of the check every fifth tick. -/
def leaveStandby (agent : Agent) (seen : Seen) : Agent :=
  if agent.standby && seen.onConsole then
    { agent with
      standby := false
      tapper := if agent.started then agent.tapper else agent.tapper.stop }
  else agent

def enterStandby (agent : Agent) (seen : Seen) : Agent :=
  if !agent.started && !agent.standby && agent.granted && !seen.onConsole && agent.asked then
    { agent with standby := true, tapper := agent.tapper.poll seen.first }
  else agent

/-- The end of a tick; a tap that stays silent makes the process exit. -/
def follow (agent : Agent) (seen : Seen) : Phase :=
  let tapper :=
    if agent.started || agent.standby then agent.tapper.poll seen.second else agent.tapper
  if agent.started && seen.silent && tapper.tap.isSome then .ended tapper.teardown
  else .serving { agent with tapper := tapper }

def onTick (agent : Agent) (seen : Seen) : Phase :=
  let agent := { agent with ticks := agent.ticks + 1 }
  if agent.ticks % 5 = 0 then
    -- granted while running: only a fresh process gets the grant
    if seen.granted && !agent.granted then .ended agent.tapper.stop
    else
      (({ agent with granted := seen.granted }.leaveStandby seen).enterStandby seen).follow seen
  else agent.follow seen

end Agent

def step : Phase → AgentEvent → Phase
  | .ended tapper, _ => .ended tapper
  | .serving agent, .command cmd seen =>
      if cmd = cmdStart then .serving (agent.onStart seen)
      else if cmd = cmdStop then .serving (agent.onStop seen)
      else .serving agent
  | .serving agent, .tick seen => agent.onTick seen
  | .serving agent, .idle => .serving agent
  | .serving agent, .stopReq => .ended agent.tapper.stop
  | .serving agent, .disconnect => .ended agent.tapper.stop

def run (phase : Phase) (events : List AgentEvent) : Phase := events.foldl step phase

/-- The events that may bring a tap back: a start command, and a tick that looks at the console
and the permission and finds the session off console with the permission granted. -/
def Resumes (phase : Phase) : AgentEvent → Prop
  | .command cmd _ => cmd = cmdStart
  | .tick seen =>
      match phase with
      | .serving agent =>
          (agent.ticks + 1) % 5 = 0 ∧ agent.granted = true ∧ seen.granted = true ∧
            seen.onConsole = false
      | .ended _ => False
  | _ => False

def Quiet : Phase → List AgentEvent → Prop
  | _, [] => True
  | phase, event :: events => ¬ Resumes phase event ∧ Quiet (step phase event) events

def Untapped (taps : Nat) (phase : Phase) : Prop :=
  phase.tapper.tap = none ∧ phase.tapper.taps = taps

def Resting (taps : Nat) : Phase → Prop
  | .serving agent =>
      agent.started = false ∧ agent.standby = false ∧ agent.tapper.tap = none ∧
        agent.tapper.taps = taps
  | .ended tapper => tapper.tap = none ∧ tapper.taps = taps

theorem Resting.untapped (h : Resting taps phase) : Untapped taps phase := by
  cases phase with
  | serving agent => exact h.2.2
  | ended tapper => exact h

section Resting

variable {taps : Nat} {agent : Agent}

theorem resting_follow (h : Resting taps (.serving agent)) (seen : Seen) :
    Resting taps (agent.follow seen) := by
  obtain ⟨hstarted, hstandby, htap⟩ := h
  simp only [Agent.follow, hstarted, hstandby]
  exact ⟨rfl, rfl, htap⟩

theorem resting_onTick (h : Resting taps (.serving agent)) (seen : Seen)
    (hquiet : ¬ Resumes (.serving agent) (.tick seen)) : Resting taps (agent.onTick seen) := by
  obtain ⟨hstarted, hstandby, htap⟩ := h
  unfold Agent.onTick
  dsimp only
  split
  · next hfifth =>
    split
    · exact ⟨rfl, htap.2⟩
    · next hsame =>
      apply resting_follow
      have hstay : ¬ (seen.granted = true ∧ seen.onConsole = false) := by
        rintro ⟨hgranted, hconsole⟩
        simp only [hgranted, Bool.true_and, Bool.not_eq_true', Bool.not_eq_false] at hsame
        exact hquiet ⟨hfifth, hsame, hgranted, hconsole⟩
      simp only [Agent.leaveStandby, Agent.enterStandby, hstarted, hstandby]
      grind [Resting]
  · apply resting_follow
    exact ⟨hstarted, hstandby, htap⟩

theorem resting_step (h : Resting taps phase) (event : AgentEvent)
    (hquiet : ¬ Resumes phase event) : Resting taps (step phase event) := by
  cases phase with
  | ended tapper => exact h
  | serving agent =>
    cases event with
    | command cmd seen =>
      have hstart : cmd ≠ cmdStart := hquiet
      rw [step, if_neg hstart]
      split
      · rw [Agent.onStop, h.1]
        exact h
      · exact h
    | tick seen => exact resting_onTick h seen hquiet
    | idle => exact h
    | stopReq => exact ⟨rfl, h.2.2.2⟩
    | disconnect => exact ⟨rfl, h.2.2.2⟩

theorem resting_run (h : Resting taps phase) (hquiet : Quiet phase events) :
    Resting taps (run phase events) := by
  induction events generalizing phase with
  | nil => exact h
  | cons event events ih => exact ih (resting_step h event hquiet.1) hquiet.2

end Resting

/-- A stop command that finds the session on console or the permission missing. -/
def Observes (seen : Seen) : Prop := seen.onConsole = true ∨ seen.granted = false

theorem onStop_observed (hstarted : agent.started = true) (hseen : Observes seen) :
    step (.serving agent) (.command cmdStop seen) = .serving
      { agent with tapper := { agent.tapper with forward := false }.stop, started := false } := by
  have htest : (seen.onConsole || !seen.granted) = true := by
    rcases hseen with h | h <;> simp [h]
  have hother : cmdStop ≠ cmdStart := by decide
  rw [step, if_neg hother, if_pos rfl, Agent.onStop]
  simp only [hstarted, htest, Bool.not_true, Bool.false_eq_true, if_false, if_true]

def offConsole (proc : UInt32) : Seen :=
  ⟨false, false, ⟨some [proc], true⟩, ⟨some [proc], true⟩, false⟩

theorem tap_follow_standby (agent : Agent) (hstarted : agent.started = false)
    (hstandby : agent.standby = true) (htap : agent.tapper.tap = none) (proc : UInt32) :
    (agent.follow (offConsole proc)).tapper.tap = some [proc] := by
  have hpoll : (agent.tapper.poll ⟨some [proc], true⟩).tap = some [proc] := by
    simp [Tapper.poll, htap]
  unfold Agent.follow
  simp only [hstarted, hstandby, Bool.false_or, Bool.false_and, Bool.false_eq_true, if_true,
    if_false]
  exact hpoll

theorem standby_tick (agent : Agent) (hstarted : agent.started = false)
    (hstandby : agent.standby = true) (htap : agent.tapper.tap = none) (proc : UInt32) :
    (step (.serving agent) (.tick (offConsole proc))).tapper.tap = some [proc] := by
  have hleave (other : Agent) : other.leaveStandby (offConsole proc) = other := by
    simp [Agent.leaveStandby, offConsole]
  have henter (other : Agent) (h : other.standby = true) :
      other.enterStandby (offConsole proc) = other := by
    simp [Agent.enterStandby, h]
  have hfollow (granted : Bool) (ticks : Nat) :=
    tap_follow_standby { agent with granted := granted, ticks := ticks } hstarted hstandby htap
      proc
  rw [step, Agent.onTick]
  dsimp only
  split
  · -- without the permission the process does not restart itself
    rw [if_neg (by simp [offConsole]), hleave, henter]
    · exact hfollow _ _
    · exact hstandby
  · exact hfollow _ _

/-- After a stop command that finds the session on console or the permission missing, no tap
exists or is built until a start command or a tick that finds it off console with the
permission, exactly if the agent was not on standby. -/
theorem console_user_not_muted_iff (agent : Agent) (seen : Seen) (hstarted : agent.started = true)
    (hseen : Observes seen) :
    (∀ events, Quiet (step (.serving agent) (.command cmdStop seen)) events →
      Untapped agent.tapper.taps (run (step (.serving agent) (.command cmdStop seen)) events)) ↔
      agent.standby = false := by
  rw [onStop_observed hstarted hseen]
  constructor
  · intro huntapped
    by_contra hstandby
    rw [Bool.not_eq_false] at hstandby
    have hnone := (huntapped [.tick (offConsole 1)] ⟨by simp [Resumes, offConsole], trivial⟩).1
    have hbuilt := standby_tick { agent with
      tapper := { agent.tapper with forward := false }.stop, started := false } rfl hstandby rfl 1
    cases hnone.symm.trans hbuilt
  · intro hstandby events hquiet
    have hresting : Resting agent.tapper.taps (.serving { agent with
        tapper := { agent.tapper with forward := false }.stop, started := false }) :=
      ⟨rfl, hstandby, rfl, rfl⟩
    exact (resting_run hresting hquiet).untapped

def onConsole : Seen := ⟨true, true, ⟨some [7], true⟩, ⟨some [7], true⟩, false⟩

/-- An agent that was never on standby is at rest after the stop command. -/
theorem console_user_not_muted_started :
    Untapped 1 (run (.serving ((Agent.serve ⟨[], none, 0, false⟩ onConsole).onStart onConsole))
      [.command cmdStop onConsole, .tick onConsole]) :=
  (console_user_not_muted_iff ((Agent.serve ⟨[], none, 0, false⟩ onConsole).onStart onConsole)
    onConsole rfl (.inl rfl)).mpr rfl [.tick onConsole]
    ⟨fun hresumes => absurd hresumes.1 (by decide), trivial⟩

/-- The session was off console with the permission when the agent came up, and is on console when
the subscriber leaves: the standby flag is still set, and the next tick builds the tap again. -/
theorem console_user_muted :
    (run (.serving (Agent.serve ⟨[], none, 0, false⟩
        ⟨false, true, ⟨some [7], true⟩, ⟨some [7], true⟩, false⟩))
      [.command cmdStart onConsole, .command cmdStop onConsole, .tick onConsole]).tapper.tap =
        some [7] := by
  decide

end Scshr.Tunnel.AudioAgent
