import Scshr.Tunnel.Pairing

/-! The session audio relay (`tools/mac-tunnel/audio_relay.go`).  Every method holds the
mutex from its first access to the relay, so a run is a sequence of method calls.  A pointer
to an agent is a number, what `send` and `cmd` are called with is a list of effects, and
`logf` is left out.  A time is its nanoseconds since the zero time. -/
namespace Scshr.Tunnel

open Common

abbrev AgentId := Nat

def audioSubTimeout : Int := 3000000000
def audioMaxAccount : Nat := 64
def frameAudio : UInt8 := 1
def frameStatus : UInt8 := 2
def cmdStart : UInt8 := 115
def cmdStop : UInt8 := 120

/-- `Time.Sub`, which saturates. -/
def timeSub (t u : Int) : Int :=
  max (-9223372036854775808) (min 9223372036854775807 (t - u))

/-- What the relay is given: the lookup of accounts, and of the Go library the text of an
address and `strings.TrimSpace`. -/
structure Host (Addr : Type) where
  lookupUID : Bytes → Option UInt32
  addrString : Addr → String
  trimSpace : Bytes → Bytes

structure RelayAgent where
  uid : UInt32
  started : Bool
  deriving DecidableEq

/-- A call to `send` with the audio of an agent, with any other text, or to an agent's
`cmd`. -/
inductive Effect (Addr : Type) where
  | audio (dest : Addr) (source : AgentId) (payload : Bytes)
  | send (dest : Addr) (b : Bytes)
  | cmd (agent : AgentId) (command : UInt8)
  deriving DecidableEq

structure Relay (Addr : Type) where
  agents : List AgentId
  agent : AgentId → RelayAgent
  uidCache : Bytes → Option UInt32
  client : Option Addr
  clientUID : UInt32
  lastSub : Int
  active : Option AgentId
  forwarded : UInt64

structure Outcome (Addr : Type) where
  relay : Relay Addr
  effects : List (Effect Addr)

/-- `parseSub`: an account, or nothing for a farewell. -/
def parseSub (b : Bytes) : Except String (Option Bytes) :=
  let s := (b.reverse.dropWhile fun c => c = 13 || c = 10).reverse
  if s = ascii "SCAU1 bye" then .ok none
  else if s.take 10 = ascii "SCAU1 sub " then
    let account := s.drop 10
    if account = [] ∨ account.length > audioMaxAccount ∨
        account.any fun c => c ∈ [32, 9, 47, 92, 0] then
      .error "bad account in subscribe"
    else .ok (some account)
  else .error "not a subscribe datagram"

namespace Relay

variable {Addr : Type}

def newRelay : Relay Addr where
  agents := []
  agent := fun _ => ⟨0, false⟩
  uidCache := fun _ => none
  client := none
  clientUID := 0
  lastSub := 0
  active := none
  forwarded := 0

def addAgent (r : Relay Addr) (a : AgentId) (uid : UInt32) : Relay Addr :=
  { r with agents := r.agents.insert a, agent := Function.update r.agent a ⟨uid, false⟩ }

def removeAgent (r : Relay Addr) (a : AgentId) : Relay Addr :=
  { r with
    agents := r.agents.filter (· ≠ a)
    active := if r.active = some a then none else r.active }

def status (r : Relay Addr) (text : Bytes) : List (Effect Addr) :=
  r.client.toList.map fun client => .send client (ascii "SCAU1 status " ++ text)

def onAgentFrame (host : Host Addr) (r : Relay Addr) (a : AgentId) (kind : UInt8)
    (payload : Bytes) : Outcome Addr :=
  if kind = frameAudio then
    match r.client with
    | some client =>
        if r.active = some a then
          ⟨{ r with forwarded := r.forwarded + 1 }, [.audio client a payload]⟩
        else ⟨r, []⟩
    | none => ⟨r, []⟩
  else if kind = frameStatus then
    if r.active = some a ∧ r.client.isSome then ⟨r, r.status (host.trimSpace payload)⟩
    else ⟨r, []⟩
  else ⟨r, []⟩

def setStarted (r : Relay Addr) (a : AgentId) (started : Bool) : Relay Addr :=
  { r with agent := Function.update r.agent a { r.agent a with started } }

def stopActiveLocked (r : Relay Addr) : Outcome Addr :=
  match r.active with
  | some a =>
      if (r.agent a).started then
        ⟨{ r.setStarted a false with active := none, forwarded := 0 }, [.cmd a cmdStop]⟩
      else ⟨{ r with active := none, forwarded := 0 }, []⟩
  | none => ⟨{ r with forwarded := 0 }, []⟩

def dropClient (r : Relay Addr) : Outcome Addr :=
  ⟨{ r.stopActiveLocked.relay with client := none }, r.stopActiveLocked.effects⟩

def accountUID (host : Host Addr) (r : Relay Addr) (account : Bytes) :
    Option (UInt32 × Relay Addr) :=
  match r.uidCache account with
  | some uid => some (uid, r)
  | none =>
      (host.lookupUID account).map fun uid =>
        (uid, { r with uidCache := Function.update r.uidCache account (some uid) })

/-- Another client or another account takes the subscription over. -/
def takeOver (host : Host Addr) (r : Relay Addr) (sender : Addr) (uid : UInt32) :
    Outcome Addr :=
  if r.client.map host.addrString ≠ some (host.addrString sender) ∨ r.clientUID ≠ uid then
    ⟨{ r.stopActiveLocked.relay with client := some sender, clientUID := uid },
      r.stopActiveLocked.effects⟩
  else ⟨r, []⟩

/-- The end of a subscribe datagram; `order` is the order in which the loop over the map of
agents meets them. -/
def activate (r : Relay Addr) (account : Bytes) (uid : UInt32) (order : List AgentId) :
    Outcome Addr :=
  let found := r.active.or (order.find? fun a => (r.agent a).uid = uid)
  let r := { r with active := found }
  match found with
  | none => ⟨r, r.status (ascii "no-agent " ++ account)⟩
  | some a =>
      if (r.agent a).started then ⟨r, []⟩ else ⟨r.setStarted a true, [.cmd a cmdStart]⟩

def subscribe (host : Host Addr) (r : Relay Addr) (sender : Addr) (account : Bytes)
    (uid : UInt32) (now : Int) (order : List AgentId) : Outcome Addr :=
  let taken := r.takeOver host sender uid
  let activated := activate { taken.relay with lastSub := now } account uid order
  ⟨activated.relay, taken.effects ++ activated.effects⟩

def onDatagram (host : Host Addr) (r : Relay Addr) (sender : Addr) (b : Bytes) (now : Int)
    (order : List AgentId) : Outcome Addr :=
  match parseSub b with
  | .error _ => ⟨r, []⟩
  | .ok none =>
      if r.client.map host.addrString = some (host.addrString sender) then r.dropClient
      else ⟨r, []⟩
  | .ok (some account) =>
      match r.accountUID host account with
      | none => ⟨r, [.send sender (ascii "SCAU1 status unknown-account " ++ account)]⟩
      | some (uid, r) => r.subscribe host sender account uid now order

def tick (r : Relay Addr) (now : Int) : Outcome Addr :=
  if r.client.isSome ∧ timeSub now r.lastSub > audioSubTimeout then r.dropClient else ⟨r, []⟩

inductive Event (Addr : Type) where
  | addAgent (a : AgentId) (uid : UInt32)
  | removeAgent (a : AgentId)
  | onAgentFrame (a : AgentId) (kind : UInt8) (payload : Bytes)
  | onDatagram (sender : Addr) (b : Bytes) (now : Int) (order : List AgentId)
  | tick (now : Int)

def step (host : Host Addr) (r : Relay Addr) : Event Addr → Outcome Addr
  | .addAgent a uid => ⟨r.addAgent a uid, []⟩
  | .removeAgent a => ⟨r.removeAgent a, []⟩
  | .onAgentFrame a kind payload => r.onAgentFrame host a kind payload
  | .onDatagram sender b now order => r.onDatagram host sender b now order
  | .tick now => r.tick now

def addedAgents (events : List (Event Addr)) : List AgentId :=
  events.filterMap fun
    | .addAgent a _ => some a
    | _ => none

/-- An agent is added once, and the loop over the map meets every registered agent once, in
any order. -/
def Allowed (events : List (Event Addr)) (r : Relay Addr) : Event Addr → Prop
  | .addAgent a _ => a ∉ addedAgents events
  | .onDatagram _ _ _ order => order.Perm r.agents
  | _ => True

/-- The runs of the relay: the calls, the relay behind them, and all effects. -/
inductive Run (host : Host Addr) :
    List (Event Addr) → Relay Addr → List (Effect Addr) → Prop where
  | start : Run host [] newRelay []
  | step {events : List (Event Addr)} {r : Relay Addr} {effects : List (Effect Addr)}
      {event : Event Addr} (hrun : Run host events r effects) (hallowed : Allowed events r event) :
      Run host (events ++ [event]) (r.step host event).relay
        (effects ++ (r.step host event).effects)

end Relay

end Scshr.Tunnel
