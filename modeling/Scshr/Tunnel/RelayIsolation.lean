import Scshr.Tunnel.AudioRelay

/-! The relay keeps its subscribers apart.  What a run of calls subscribes is said without
agents, by `subscribed`; the relay refines it, and serves it only with an agent of the
subscribed account. -/
namespace Scshr.Tunnel.Relay

open Common List Option

variable {Addr : Type}

/-! ## The subscription -/

structure Subscription where
  address : String
  account : Bytes
  renewed : Int

def Subscription.next (host : Host Addr) (sub : Option Subscription) :
    Event Addr → Option Subscription
  | .onDatagram sender b now _ =>
      match parseSub b with
      | .error _ => sub
      | .ok none => sub.filter fun s => s.address ≠ host.addrString sender
      | .ok (some account) =>
          if (host.lookupUID account).isSome then some ⟨host.addrString sender, account, now⟩
          else sub
  | .tick now => sub.filter fun s => now - s.renewed ≤ audioSubTimeout
  | _ => sub

def subscribed (host : Host Addr) (events : List (Event Addr)) : Option Subscription :=
  events.foldl (Subscription.next host) none

variable {host : Host Addr} {events : List (Event Addr)} {a : AgentId}

theorem subscribed_append (host : Host Addr) (events : List (Event Addr)) (event : Event Addr) :
    subscribed host (events ++ [event]) =
      Subscription.next host (subscribed host events) event := by
  rw [subscribed, foldl_append]
  rfl

/-- The relay stores the subscription: its client, the uid of the account, the time. -/
structure Refines (host : Host Addr) (sub : Option Subscription) (r : Relay Addr) : Prop where
  address : r.client.map host.addrString = sub.map Subscription.address
  uid : ∀ s, sub = some s → host.lookupUID s.account = some r.clientUID
  renewed : ∀ s, sub = some s → s.renewed = r.lastSub
  cache : ∀ account uid, r.uidCache account = some uid → host.lookupUID account = some uid

section

variable {sub : Option Subscription} {r r' : Relay Addr} {account : Bytes} {uid : UInt32}

theorem refines_newRelay (host : Host Addr) : Refines host none newRelay where
  address := rfl
  uid := by simp
  renewed := by simp
  cache := by simp [newRelay]

structure SameClient (r r' : Relay Addr) : Prop where
  client : r'.client = r.client
  clientUID : r'.clientUID = r.clientUID
  lastSub : r'.lastSub = r.lastSub
  uidCache : r'.uidCache = r.uidCache

theorem Refines.congr (h : Refines host sub r) (hsame : SameClient r r') : Refines host sub r' where
  address := by rw [hsame.client, h.address]
  uid := by rw [hsame.clientUID]; exact h.uid
  renewed := by rw [hsame.lastSub]; exact h.renewed
  cache := by rw [hsame.uidCache]; exact h.cache

theorem sameClient_stopActiveLocked (r : Relay Addr) :
    SameClient r r.stopActiveLocked.relay := by
  unfold stopActiveLocked
  repeat' split
  all_goals exact ⟨rfl, rfl, rfl, rfl⟩

theorem sameClient_activate (r : Relay Addr) (account : Bytes) (uid : UInt32)
    (order : List AgentId) : SameClient r (r.activate account uid order).relay := by
  unfold activate
  dsimp only
  repeat' split
  all_goals exact ⟨rfl, rfl, rfl, rfl⟩

theorem sameClient_onAgentFrame (host : Host Addr) (r : Relay Addr) (a : AgentId) (kind : UInt8)
    (payload : Bytes) : SameClient r (r.onAgentFrame host a kind payload).relay := by
  unfold onAgentFrame
  repeat' split
  all_goals exact ⟨rfl, rfl, rfl, rfl⟩

theorem Refines.dropClient (h : Refines host sub r) : Refines host none r.dropClient.relay where
  address := rfl
  uid := by simp
  renewed := by simp
  cache := (h.congr (sameClient_stopActiveLocked r)).cache

theorem Refines.accountUID (h : Refines host sub r)
    (hfound : r.accountUID host account = some (uid, r')) :
    host.lookupUID account = some uid ∧ Refines host sub r' := by
  unfold Relay.accountUID at hfound
  split at hfound
  · case h_1 cached hcached =>
    cases hfound
    exact ⟨h.cache account uid hcached, h⟩
  · obtain ⟨found, hlookup, hpair⟩ := map_eq_some_iff.mp hfound
    cases hpair
    refine ⟨hlookup, ⟨h.address, h.uid, h.renewed, ?_⟩⟩
    intro other value hvalue
    dsimp only at hvalue
    by_cases hsame : other = account
    · subst hsame
      rw [Function.update_self] at hvalue
      rw [hlookup, hvalue]
    · rw [Function.update_of_ne hsame] at hvalue
      exact h.cache other value hvalue

theorem accountUID_none (hfound : r.accountUID host account = none) :
    host.lookupUID account = none := by
  unfold Relay.accountUID at hfound
  split at hfound
  · cases hfound
  · exact map_eq_none_iff.mp hfound

theorem accountUID_relay (hfound : r.accountUID host account = some (uid, r')) :
    ∃ cache, r' = { r with uidCache := cache } := by
  unfold Relay.accountUID at hfound
  split at hfound
  · cases hfound
    exact ⟨r.uidCache, rfl⟩
  · obtain ⟨found, -, hpair⟩ := map_eq_some_iff.mp hfound
    cases hpair
    exact ⟨_, rfl⟩

theorem Refines.takeOver (h : Refines host sub r) (hlookup : host.lookupUID account = some uid)
    (now : Int) :
    Refines host (some ⟨host.addrString sender, account, now⟩)
      { (r.takeOver host sender uid).relay with lastSub := now } := by
  unfold Relay.takeOver
  split
  · refine ⟨rfl, ?_, ?_, (h.congr (sameClient_stopActiveLocked r)).cache⟩
    · rintro s ⟨⟩
      exact hlookup
    · rintro s ⟨⟩
      rfl
  · case isFalse hsame =>
    rw [not_or, not_not, not_not] at hsame
    refine ⟨hsame.1, ?_, ?_, h.cache⟩
    · rintro s ⟨⟩
      rw [hsame.2]
      exact hlookup
    · rintro s ⟨⟩
      rfl

theorem Refines.isSome (h : Refines host sub r) : r.client.isSome = sub.isSome := by
  rw [← isSome_map (f := host.addrString), h.address, isSome_map]

theorem Refines.filter (h : Refines host sub r) {leaves : Prop} [Decidable leaves]
    (test : Subscription → Bool) (hnone : leaves → sub.isSome)
    (htest : ∀ s, sub = some s → (test s = true ↔ ¬ leaves)) :
    Refines host (sub.filter test) (if leaves then r.dropClient else ⟨r, []⟩).relay := by
  cases sub with
  | none =>
    rw [if_neg fun hleaves => Bool.false_ne_true (hnone hleaves)]
    exact h
  | some s =>
    have hs := htest s rfl
    by_cases hleaves : leaves
    · rw [if_pos hleaves, filter_some, if_neg (by simpa [hleaves] using hs)]
      exact h.dropClient
    · rw [if_neg hleaves, filter_some, if_pos (hs.mpr hleaves)]
      exact h

theorem Refines.bye (h : Refines host sub r) (sender : Addr) :
    Refines host (sub.filter fun s => s.address ≠ host.addrString sender)
      (if r.client.map host.addrString = some (host.addrString sender) then r.dropClient
        else ⟨r, []⟩).relay := by
  rw [h.address]
  apply h.filter
  · intro hsame
    obtain ⟨s, rfl, -⟩ := map_eq_some_iff.mp hsame
    rfl
  · rintro s rfl
    simp

theorem Refines.onDatagram (h : Refines host sub r) (sender : Addr) (b : Bytes) (now : Int)
    (order : List AgentId) :
    Refines host (Subscription.next host sub (.onDatagram sender b now order))
      (r.onDatagram host sender b now order).relay := by
  rcases hparse : parseSub b with text | _ | account <;>
    simp only [Relay.onDatagram, Subscription.next, hparse]
  · exact h
  · exact h.bye sender
  · cases hfound : r.accountUID host account with
    | none =>
      rw [accountUID_none hfound]
      exact h
    | some found =>
      obtain ⟨hlookup, hcached⟩ := h.accountUID hfound
      rw [hlookup]
      exact (hcached.takeOver hlookup now).congr (sameClient_activate _ account found.1 order)

theorem timeSub_gt_iff : timeSub t u > audioSubTimeout ↔ t - u > audioSubTimeout := by
  unfold timeSub audioSubTimeout
  omega

theorem Refines.tick (h : Refines host sub r) (now : Int) :
    Refines host (sub.filter fun s => now - s.renewed ≤ audioSubTimeout) (r.tick now).relay := by
  unfold Relay.tick
  apply h.filter
  · rintro ⟨hclient, -⟩
    rwa [← h.isSome]
  · rintro s rfl
    rw [decide_eq_true_iff, timeSub_gt_iff, h.isSome, h.renewed s rfl]
    simp

theorem Refines.step (h : Refines host sub r) (event : Event Addr) :
    Refines host (Subscription.next host sub event) (r.step host event).relay := by
  cases event with
  | addAgent a uid => exact h.congr ⟨rfl, rfl, rfl, rfl⟩
  | removeAgent a => exact h.congr ⟨rfl, rfl, rfl, rfl⟩
  | onAgentFrame a kind payload =>
    exact h.congr (sameClient_onAgentFrame host r a kind payload)
  | onDatagram sender b now order => exact h.onDatagram sender b now order
  | tick now => exact h.tick now

end

/-! ## The commands of an agent -/

def commandsTo (a : AgentId) (effects : List (Effect Addr)) : List UInt8 :=
  effects.filterMap fun
    | .cmd agent command => if agent = a then some command else none
    | _ => none

theorem commandsTo_append (a : AgentId) (effects later : List (Effect Addr)) :
    commandsTo a (effects ++ later) = commandsTo a effects ++ commandsTo a later :=
  filterMap_append

theorem commandsTo_cmd (a agent : AgentId) (command : UInt8) :
    commandsTo a [(.cmd agent command : Effect Addr)] = if agent = a then [command] else [] := by
  by_cases h : agent = a <;> simp [commandsTo, h]

theorem commandsTo_status (a : AgentId) (r : Relay Addr) (text : Bytes) :
    commandsTo a (r.status text) = [] := by
  cases hclient : r.client <;> simp [commandsTo, status, hclient]

/-- Start and stop in turn, beginning with start; the agent is started after a start. -/
structure Alternating (commands : List UInt8) (started : Bool) : Prop where
  order : ∀ i command, commands[i]? = some command →
    command = if i % 2 = 0 then cmdStart else cmdStop
  parity : started = decide (commands.length % 2 = 1)

theorem Alternating.nil : Alternating [] false := ⟨by simp, rfl⟩

theorem Alternating.snoc (h : Alternating commands started) :
    Alternating (commands ++ [if started then cmdStop else cmdStart]) (!started) where
  order := by
    intro i command hcommand
    rw [List.getElem?_append] at hcommand
    split at hcommand
    · exact h.order i command hcommand
    · case isFalse hpast =>
      have hlast : i = commands.length := by
        by_contra hne
        rw [List.getElem?_eq_none (by rw [length_singleton]; omega)] at hcommand
        cases hcommand
      subst hlast
      rw [Nat.sub_self, List.getElem?_cons_zero, some_inj] at hcommand
      rw [← hcommand, h.parity]
      rcases Nat.mod_two_eq_zero_or_one commands.length with h | h <;> simp [h]
  parity := by
    rw [h.parity, length_append, length_singleton]
    rcases Nat.mod_two_eq_zero_or_one commands.length with h | h <;> simp [h, Nat.add_mod]

/-- What a part of a call does with the agents: it commands registered ones only, and each
in turn. -/
structure Handles (r : Relay Addr) (effects : List (Effect Addr)) (r' : Relay Addr) : Prop where
  agents : r'.agents = r.agents
  uid : ∀ a, (r'.agent a).uid = (r.agent a).uid
  obeys : ∀ a commands, Alternating commands (r.agent a).started →
    Alternating (commands ++ commandsTo a effects) (r'.agent a).started
  registered : ∀ a, commandsTo a effects ≠ [] → a ∈ r.agents

section

variable {r r' r'' : Relay Addr} {effects later : List (Effect Addr)}

theorem Handles.trans (h : Handles r effects r') (hlater : Handles r' later r'') :
    Handles r (effects ++ later) r'' where
  agents := hlater.agents.trans h.agents
  uid := fun a => (hlater.uid a).trans (h.uid a)
  obeys := by
    intro a commands halternating
    rw [commandsTo_append, ← append_assoc]
    exact hlater.obeys a _ (h.obeys a commands halternating)
  registered := by
    intro a hcommands
    rw [commandsTo_append] at hcommands
    by_cases hnone : commandsTo a effects = []
    · rw [hnone, nil_append] at hcommands
      rw [← h.agents]
      exact hlater.registered a hcommands
    · exact h.registered a hnone

theorem Handles.congr (h : Handles r effects r') (hagents : r''.agents = r'.agents)
    (hagent : r''.agent = r'.agent) : Handles r effects r'' where
  agents := hagents.trans h.agents
  uid := by
    rw [hagent]
    exact h.uid
  obeys := by
    rw [hagent]
    exact h.obeys
  registered := h.registered

theorem handles_of_quiet (hagents : r'.agents = r.agents) (hagent : r'.agent = r.agent)
    (hquiet : ∀ a, commandsTo a effects = []) : Handles r effects r' where
  agents := hagents
  uid := by simp [hagent]
  obeys := by
    intro a commands h
    rwa [hquiet, append_nil, hagent]
  registered := by
    intro a h
    exact absurd (hquiet a) h

theorem handles_setStarted (ha : a ∈ r.agents) (hstarted : (r.agent a).started = started) :
    Handles r [.cmd a (if started then cmdStop else cmdStart)] (r.setStarted a (!started)) where
  agents := rfl
  uid := by
    intro b
    by_cases hb : b = a <;> simp [setStarted, hb]
  obeys := by
    intro b commands h
    rw [commandsTo_cmd]
    by_cases hb : b = a
    · subst hb
      rw [hstarted] at h
      simpa [setStarted] using h.snoc
    · rw [if_neg (Ne.symm hb), append_nil]
      simpa [setStarted, hb] using h
  registered := by
    intro b h
    rw [commandsTo_cmd] at h
    by_cases hb : a = b
    · rwa [← hb]
    · rw [if_neg hb] at h
      exact absurd rfl h

end

/-! ## The active agent -/

/-- The active agent is registered and of the subscriber's account, and of the registered
agents it alone is started. -/
structure Served (r : Relay Addr) : Prop where
  client : ∀ a, r.active = some a → r.client.isSome
  registered : ∀ a, r.active = some a → a ∈ r.agents
  uid : ∀ a, r.active = some a → (r.agent a).uid = r.clientUID
  started : ∀ a ∈ r.agents, ((r.agent a).started = true ↔ r.active = some a)

section

variable {r : Relay Addr} {order : List AgentId}

theorem Served.quiet (h : Served r) (hquiet : ∀ a, commandsTo a effects = []) :
    Served r ∧ Handles r effects r :=
  ⟨h, handles_of_quiet rfl rfl hquiet⟩

theorem served_newRelay : Served (newRelay : Relay Addr) :=
  ⟨by simp [newRelay], by simp [newRelay], by simp [newRelay], by simp [newRelay]⟩

theorem served_of_idle (hactive : r.active = none)
    (hstarted : ∀ a ∈ r.agents, (r.agent a).started = false) : Served r where
  client := by simp [hactive]
  registered := by simp [hactive]
  uid := by simp [hactive]
  started := by
    intro a ha
    simp [hactive, hstarted a ha]

/-- The end of `stopActiveLocked`: no agent is active and none is started. -/
structure Stopped (r : Relay Addr) (stopped : Outcome Addr) : Prop where
  handles : Handles r stopped.effects stopped.relay
  active : stopped.relay.active = none
  started : ∀ a ∈ stopped.relay.agents, (stopped.relay.agent a).started = false

theorem Served.stopActiveLocked (h : Served r) : Stopped r r.stopActiveLocked := by
  unfold Relay.stopActiveLocked
  cases hactive : r.active with
  | none =>
    refine ⟨handles_of_quiet rfl rfl fun _ => rfl, rfl, ?_⟩
    intro a ha
    simpa [hactive] using h.started a ha
  | some a =>
    have hregistered := h.registered a hactive
    have hstarted := (h.started a hregistered).mpr hactive
    simp only [hstarted, if_true]
    have hhandles := handles_setStarted hregistered hstarted
    refine ⟨hhandles.congr rfl rfl, rfl, ?_⟩
    intro b hb
    by_cases hsame : b = a
    · subst hsame
      simp [setStarted]
    · have hother := h.started b hb
      rw [hactive, some_inj] at hother
      simpa [setStarted, hsame, Ne.symm hsame] using hother

theorem Served.dropClient (h : Served r) :
    Served r.dropClient.relay ∧ Handles r r.dropClient.effects r.dropClient.relay := by
  have hstopped := h.stopActiveLocked
  exact ⟨served_of_idle hstopped.active hstopped.started, hstopped.handles.congr rfl rfl⟩

/-- The subscriber behind a take-over is the sender with its uid. -/
structure TakenOver (r : Relay Addr) (uid : UInt32) (taken : Outcome Addr) : Prop where
  served : Served taken.relay
  handles : Handles r taken.effects taken.relay
  client : taken.relay.client.isSome
  clientUID : taken.relay.clientUID = uid

theorem Served.takeOver (h : Served r) (sender : Addr) (uid : UInt32) :
    TakenOver r uid (r.takeOver host sender uid) := by
  unfold Relay.takeOver
  split
  · have hstopped := h.stopActiveLocked
    exact ⟨served_of_idle hstopped.active hstopped.started, hstopped.handles.congr rfl rfl, rfl,
      rfl⟩
  · case isFalse hsame =>
    rw [not_or, not_not, not_not] at hsame
    obtain ⟨client, hclient, -⟩ := map_eq_some_iff.mp hsame.1
    exact ⟨h, handles_of_quiet rfl rfl fun _ => rfl, by rw [hclient]; rfl, hsame.2⟩

theorem Served.found (h : Served r) (horder : ∀ a ∈ order, a ∈ r.agents)
    (hfound : r.active.or (order.find? fun a => (r.agent a).uid = r.clientUID) = some a) :
    a ∈ r.agents ∧ (r.agent a).uid = r.clientUID ∧
      ∀ b ∈ r.agents, (r.agent b).started = true → b = a := by
  cases hactive : r.active with
  | some active =>
    rw [hactive, some_or, some_inj] at hfound
    subst hfound
    refine ⟨h.registered _ hactive, h.uid _ hactive, ?_⟩
    intro b hb hstarted
    exact (some_inj.mp (((h.started b hb).mp hstarted).symm.trans hactive))
  | none =>
    rw [hactive, none_or] at hfound
    refine ⟨horder a (mem_of_find?_eq_some hfound), by simpa using List.find?_some hfound, ?_⟩
    intro b hb hstarted
    rw [(h.started b hb).mp hstarted] at hactive
    cases hactive

theorem served_of_active (hactive : r.active = some a) (hclient : r.client.isSome)
    (ha : a ∈ r.agents) (huid : (r.agent a).uid = r.clientUID)
    (hstarted : ∀ b ∈ r.agents, ((r.agent b).started = true ↔ b = a)) : Served r where
  client := fun _ _ => hclient
  registered := by
    intro b hb
    rw [hactive, some_inj] at hb
    rwa [← hb]
  uid := by
    intro b hb
    rw [hactive, some_inj] at hb
    rwa [← hb]
  started := by
    intro b hb
    rw [hactive, some_inj, hstarted b hb, eq_comm]

theorem Served.activate (h : Served r) (hclient : r.client.isSome) {uid : UInt32}
    (huid : r.clientUID = uid) (account : Bytes) (horder : ∀ a ∈ order, a ∈ r.agents) :
    Served (r.activate account uid order).relay ∧
      Handles r (r.activate account uid order).effects (r.activate account uid order).relay := by
  subst huid
  unfold Relay.activate
  dsimp only
  split
  · case h_1 hnone =>
    have hactive : r.active = none := (or_eq_none_iff.mp hnone).1
    refine ⟨served_of_idle hnone ?_, handles_of_quiet rfl rfl fun a => commandsTo_status a _ _⟩
    intro a ha
    simpa [hactive] using h.started a ha
  · case h_2 a hfound =>
    obtain ⟨ha, huid, honly⟩ := h.found horder hfound
    split
    · case isTrue hstarted =>
      refine ⟨served_of_active hfound hclient ha huid ?_, handles_of_quiet rfl rfl fun _ => rfl⟩
      intro b hb
      exact ⟨honly b hb, fun hsame => hsame ▸ hstarted⟩
    · case isFalse hstarted =>
      have hhandles := handles_setStarted ha (Bool.eq_false_iff.mpr hstarted)
      refine ⟨served_of_active hfound hclient ha ?_ ?_, hhandles.congr rfl rfl⟩
      · simpa [setStarted] using huid
      · intro b hb
        by_cases hsame : b = a
        · simp [setStarted, hsame]
        · simpa [setStarted, hsame] using fun hb' => hsame (honly b hb hb')

theorem Served.subscribe (h : Served r) (sender : Addr) (account : Bytes) (uid : UInt32) (now : Int)
    (horder : ∀ a ∈ order, a ∈ r.agents) :
    Served (r.subscribe host sender account uid now order).relay ∧
      Handles r (r.subscribe host sender account uid now order).effects
        (r.subscribe host sender account uid now order).relay := by
  have htaken := @Served.takeOver _ host r h sender uid
  let taken := (r.takeOver host sender uid).relay
  have hserved : Served { taken with lastSub := now } :=
    ⟨htaken.served.client, htaken.served.registered, htaken.served.uid, htaken.served.started⟩
  have horder' : ∀ a ∈ order, a ∈ taken.agents := by
    intro a ha
    rw [htaken.handles.agents]
    exact horder a ha
  have hactivated := hserved.activate htaken.client htaken.clientUID account horder'
  have hhandles : Handles r _ { taken with lastSub := now } := htaken.handles.congr rfl rfl
  exact ⟨hactivated.1, hhandles.trans hactivated.2⟩

theorem Served.onDatagram (h : Served r) (sender : Addr) (b : Bytes) (now : Int)
    (horder : ∀ a ∈ order, a ∈ r.agents) :
    Served (r.onDatagram host sender b now order).relay ∧
      Handles r (r.onDatagram host sender b now order).effects
        (r.onDatagram host sender b now order).relay := by
  unfold Relay.onDatagram
  split
  · exact h.quiet fun _ => rfl
  · split
    · exact h.dropClient
    · exact h.quiet fun _ => rfl
  next account _ =>
    split
    · exact h.quiet fun _ => rfl
    next uid r' hfound =>
      obtain ⟨cache, rfl⟩ := accountUID_relay hfound
      have hserved : Served { r with uidCache := cache } :=
        ⟨h.client, h.registered, h.uid, h.started⟩
      have hsubscribed := @Served.subscribe _ host _ order hserved sender account uid now horder
      have hcached : Handles r [] { r with uidCache := cache } :=
        handles_of_quiet rfl rfl fun _ => rfl
      exact ⟨hsubscribed.1, hcached.trans hsubscribed.2⟩

theorem Served.tick (h : Served r) (now : Int) :
    Served (r.tick now).relay ∧ Handles r (r.tick now).effects (r.tick now).relay := by
  unfold Relay.tick
  split
  · exact h.dropClient
  · exact h.quiet fun _ => rfl

theorem Served.onAgentFrame (h : Served r) (a : AgentId) (kind : UInt8) (payload : Bytes) :
    Served (r.onAgentFrame host a kind payload).relay ∧
      Handles r (r.onAgentFrame host a kind payload).effects
        (r.onAgentFrame host a kind payload).relay := by
  unfold Relay.onAgentFrame
  repeat' split
  · exact ⟨⟨h.client, h.registered, h.uid, h.started⟩, handles_of_quiet rfl rfl fun _ => rfl⟩
  · exact h.quiet fun _ => rfl
  · exact h.quiet fun _ => rfl
  · exact h.quiet fun b => commandsTo_status b r _
  · exact h.quiet fun _ => rfl
  · exact h.quiet fun _ => rfl

theorem Served.removeAgent (h : Served r) (a : AgentId) : Served (r.removeAgent a) := by
  have hactive : ∀ b, (r.removeAgent a).active = some b ↔ b ≠ a ∧ r.active = some b := by
    intro b
    by_cases ha : r.active = some a
    · simp [Relay.removeAgent, ha, eq_comm]
    · simp only [Relay.removeAgent, if_neg ha]
      constructor
      · intro hb
        refine ⟨?_, hb⟩
        rintro rfl
        exact ha hb
      · exact fun hb => hb.2
  have hmem : ∀ b, b ∈ (r.removeAgent a).agents ↔ b ∈ r.agents ∧ b ≠ a := by
    simp [Relay.removeAgent]
  refine ⟨?_, ?_, ?_, ?_⟩
  · intro b hb
    exact h.client b ((hactive b).mp hb).2
  · intro b hb
    obtain ⟨hne, hb⟩ := (hactive b).mp hb
    exact (hmem b).mpr ⟨h.registered b hb, hne⟩
  · intro b hb
    exact h.uid b ((hactive b).mp hb).2
  · intro b hb
    obtain ⟨hb, hne⟩ := (hmem b).mp hb
    rw [hactive b]
    exact (h.started b hb).trans ⟨fun hb => ⟨hne, hb⟩, And.right⟩

theorem Served.addAgent (h : Served r) (hnew : a ∉ r.agents) (uid : UInt32) :
    Served (r.addAgent a uid) := by
  have hother : ∀ b ∈ r.agents, (r.addAgent a uid).agent b = r.agent b := by
    intro b hb
    apply Function.update_of_ne
    rintro rfl
    exact hnew hb
  refine ⟨h.client, ?_, ?_, ?_⟩
  · intro b hb
    exact mem_insert_of_mem (h.registered b hb)
  · intro b hb
    rw [hother b (h.registered b hb)]
    exact h.uid b hb
  · intro b hb
    obtain rfl | hb := mem_insert_iff.mp hb
    · have hinactive : r.active ≠ some b := fun hactive => hnew (h.registered b hactive)
      simpa [Relay.addAgent] using hinactive
    · rw [hother b hb]
      exact h.started b hb

end

/-! ## Runs -/

structure Isolating (host : Host Addr) (events : List (Event Addr)) (r : Relay Addr)
    (effects : List (Effect Addr)) : Prop where
  refines : Refines host (subscribed host events) r
  served : Served r
  alternating : ∀ a, Alternating (commandsTo a effects) (r.agent a).started
  added : ∀ a, a ∈ r.agents ∨ commandsTo a effects ≠ [] → a ∈ addedAgents events

theorem mem_addedAgents_append (event : Event Addr) (h : a ∈ addedAgents events) :
    a ∈ addedAgents (events ++ [event]) := by
  rw [addedAgents, filterMap_append]
  exact mem_append_left _ h

section

variable {r r' : Relay Addr} {effects later : List (Effect Addr)} {event : Event Addr}

theorem isolating_newRelay (host : Host Addr) : Isolating host [] newRelay [] where
  refines := refines_newRelay host
  served := served_newRelay
  alternating := fun _ => Alternating.nil
  added := by simp [newRelay, commandsTo]

theorem Isolating.handles (h : Isolating host events r effects)
    (hrefines : Refines host (subscribed host (events ++ [event])) r')
    (hstep : Served r' ∧ Handles r later r') :
    Isolating host (events ++ [event]) r' (effects ++ later) := by
  obtain ⟨hserved, hhandles⟩ := hstep
  refine ⟨hrefines, hserved, ?_, ?_⟩
  · intro a
    rw [commandsTo_append]
    exact hhandles.obeys a _ (h.alternating a)
  · intro a ha
    apply mem_addedAgents_append
    rw [hhandles.agents, commandsTo_append] at ha
    obtain hregistered | hcommands := ha
    · exact h.added a (Or.inl hregistered)
    · by_cases hnone : commandsTo a effects = []
      · rw [hnone, nil_append] at hcommands
        exact h.added a (Or.inl (hhandles.registered a hcommands))
      · exact h.added a (Or.inr hnone)

theorem Isolating.addAgent (h : Isolating host events r effects) (uid : UInt32)
    (hfresh : a ∉ addedAgents events) :
    Isolating host (events ++ [.addAgent a uid]) (r.addAgent a uid) effects where
  refines := by
    rw [subscribed_append]
    exact h.refines.step (.addAgent a uid)
  served := h.served.addAgent (fun ha => hfresh (h.added a (Or.inl ha))) uid
  alternating := by
    intro b
    by_cases hb : b = a
    · subst hb
      have hnone : commandsTo b effects = [] := by
        by_contra hcommands
        exact hfresh (h.added b (Or.inr hcommands))
      simpa [hnone, Relay.addAgent] using Alternating.nil
    · simpa [Relay.addAgent, hb] using h.alternating b
  added := by
    intro b hb
    have hnew : addedAgents (events ++ [.addAgent a uid]) = addedAgents events ++ [a] :=
      filterMap_append
    rw [hnew, mem_append, mem_singleton]
    by_cases hsame : b = a
    · exact Or.inr hsame
    · apply Or.inl
      apply h.added b
      simpa [Relay.addAgent, hsame] using hb

theorem Isolating.removeAgent (h : Isolating host events r effects) (a : AgentId) :
    Isolating host (events ++ [.removeAgent a]) (r.removeAgent a) effects where
  refines := by
    rw [subscribed_append]
    exact h.refines.step (.removeAgent a)
  served := h.served.removeAgent a
  alternating := h.alternating
  added := by
    intro b hb
    apply mem_addedAgents_append
    apply h.added b
    obtain hb | hb := hb
    · exact Or.inl (mem_of_mem_filter hb)
    · exact Or.inr hb

theorem Isolating.step (h : Isolating host events r effects) (hallowed : Allowed events r event) :
    Isolating host (events ++ [event]) (r.step host event).relay
      (effects ++ (r.step host event).effects) := by
  have hrefines : Refines host (subscribed host (events ++ [event]))
      (r.step host event).relay := by
    rw [subscribed_append]
    exact h.refines.step event
  cases event with
  | addAgent a uid =>
    rw [Relay.step, append_nil]
    exact h.addAgent uid hallowed
  | removeAgent a =>
    rw [Relay.step, append_nil]
    exact h.removeAgent a
  | onAgentFrame a kind payload => exact h.handles hrefines (h.served.onAgentFrame a kind payload)
  | onDatagram sender b now order =>
    exact h.handles hrefines (h.served.onDatagram sender b now fun a => hallowed.mem_iff.mp)
  | tick now => exact h.handles hrefines (h.served.tick now)

theorem Run.isolating (hrun : Run host events r effects) : Isolating host events r effects := by
  induction hrun with
  | start => exact isolating_newRelay host
  | step _ hallowed ih => exact ih.step hallowed

end

/-! ## Audio -/

section

variable {r : Relay Addr} {dest : Addr} {payload : Bytes}

theorem audio_notMem_stopActiveLocked : .audio dest a payload ∉ r.stopActiveLocked.effects := by
  unfold stopActiveLocked
  repeat' split
  all_goals simp

theorem audio_notMem_takeOver (sender : Addr) (uid : UInt32) :
    .audio dest a payload ∉ (r.takeOver host sender uid).effects := by
  unfold takeOver
  split
  · exact audio_notMem_stopActiveLocked
  · exact not_mem_nil

theorem audio_notMem_activate (account : Bytes) (uid : UInt32) (order : List AgentId) :
    .audio dest a payload ∉ (r.activate account uid order).effects := by
  unfold activate
  dsimp only
  repeat' split
  all_goals simp [status]

theorem audio_notMem_onDatagram (sender : Addr) (b : Bytes) (now : Int) (order : List AgentId) :
    .audio dest a payload ∉ (r.onDatagram host sender b now order).effects := by
  unfold onDatagram
  split
  · exact not_mem_nil
  · split
    · exact audio_notMem_stopActiveLocked
    · exact not_mem_nil
  · split
    · simp
    · intro h
      obtain h | h := mem_append.mp h
      · exact audio_notMem_takeOver _ _ h
      · exact audio_notMem_activate _ _ _ h

theorem audio_notMem_tick (now : Int) : .audio dest a payload ∉ (r.tick now).effects := by
  unfold tick
  split
  · exact audio_notMem_stopActiveLocked
  · exact not_mem_nil

theorem audio_of_onAgentFrame
    (h : .audio dest a payload ∈ (r.onAgentFrame host source kind frame).effects) :
    r.client = some dest ∧ r.active = some a := by
  unfold onAgentFrame at h
  repeat' split at h
  next client hclient hactive =>
    cases mem_singleton.mp h
    exact ⟨hclient, hactive⟩
  all_goals simp [status] at h

theorem audio_of_step (h : .audio dest a payload ∈ (r.step host event).effects) :
    r.client = some dest ∧ r.active = some a := by
  cases event with
  | addAgent source uid => cases h
  | removeAgent source => cases h
  | onAgentFrame source kind frame => exact audio_of_onAgentFrame h
  | onDatagram sender b now order => exact absurd h (audio_notMem_onDatagram sender b now order)
  | tick now => exact absurd h (audio_notMem_tick now)

end

/-! ## Isolation -/

/-- The agent may serve the client: it is registered, and its uid is that of the account
which the client has subscribed to. -/
structure Serves (host : Host Addr) (events : List (Event Addr)) (r : Relay Addr)
    (dest : Addr) (a : AgentId) : Prop where
  client : r.client = some dest
  registered : a ∈ r.agents
  account : ∃ sub, subscribed host events = some sub ∧
    sub.address = host.addrString dest ∧ host.lookupUID sub.account = some (r.agent a).uid

theorem Isolating.serves (h : Isolating host events r effects) (hactive : r.active = some a) :
    ∃ client, Serves host events r client a := by
  obtain ⟨client, hclient⟩ := isSome_iff_exists.mp (h.served.client a hactive)
  have haddress := h.refines.address
  rw [hclient, map_some, eq_comm] at haddress
  obtain ⟨sub, hsub, haddress⟩ := map_eq_some_iff.mp haddress
  refine ⟨client, hclient, h.served.registered a hactive, sub, hsub, haddress, ?_⟩
  rw [h.served.uid a hactive]
  exact h.refines.uid sub hsub

/-- Whatever the calls and their order: only an agent of the subscribed account is active and
forwarded, it alone is started, commands come in turn, and a tick leaves no stale
subscriber. -/
theorem relay_isolation (host : Host Addr) (events : List (Event Addr)) (r : Relay Addr)
    (effects : List (Effect Addr)) (hrun : Run host events r effects) :
    (∀ a, r.active = some a → ∃ client, Serves host events r client a) ∧
    (∀ event dest a payload, .audio dest a payload ∈ (r.step host event).effects →
      r.active = some a ∧ Serves host events r dest a) ∧
    (∀ a ∈ r.agents, ((r.agent a).started = true ↔ r.active = some a)) ∧
    (∀ a ∈ r.agents, ∀ i command, (commandsTo a effects)[i]? = some command →
      command = if i % 2 = 0 then cmdStart else cmdStop) ∧
    (∀ now client, (r.step host (.tick now)).relay.client = some client →
      ∃ sub, subscribed host events = some sub ∧ sub.address = host.addrString client ∧
        now - sub.renewed ≤ audioSubTimeout) := by
  have hisolating := hrun.isolating
  refine ⟨fun a => hisolating.serves, ?_, hisolating.served.started,
    fun a _ => (hisolating.alternating a).order, ?_⟩
  · intro event dest a payload haudio
    obtain ⟨hdest, hactive⟩ := audio_of_step haudio
    obtain ⟨client, hserves⟩ := hisolating.serves hactive
    obtain rfl : client = dest := some_inj.mp (hserves.client.symm.trans hdest)
    exact ⟨hactive, hserves⟩
  · intro now client hclient
    have haddress := (hisolating.refines.step (.tick now)).address
    rw [hclient, map_some, eq_comm] at haddress
    obtain ⟨sub, hsub, haddress⟩ := map_eq_some_iff.mp haddress
    obtain ⟨hsub, hrenewed⟩ := filter_eq_some_iff.mp hsub
    exact ⟨sub, hsub, haddress, by simpa using hrenewed⟩

def exec (host : Host Addr) (events : List (Event Addr)) : Outcome Addr :=
  events.foldl (fun done event =>
    ⟨(done.relay.step host event).relay, done.effects ++ (done.relay.step host event).effects⟩)
    ⟨newRelay, []⟩

theorem Run.exec_append (hrun : Run host events (exec host events).relay (exec host events).effects)
    (hallowed : Allowed events (exec host events).relay event) :
    Run host (events ++ [event]) (exec host (events ++ [event])).relay
      (exec host (events ++ [event])).effects := by
  have hexec : exec host (events ++ [event]) =
      ⟨((exec host events).relay.step host event).relay,
        (exec host events).effects ++ ((exec host events).relay.step host event).effects⟩ :=
    foldl_append
  rw [hexec]
  exact hrun.step hallowed

def sampleHost : Host String where
  lookupUID account :=
    if account = ascii "ann" then some 501 else if account = ascii "bob" then some 502 else none
  addrString := id
  trimSpace := id

def sampleEvents : List (Event String) :=
  [.addAgent 1 501, .addAgent 2 502,
    .onDatagram "10.77.77.2:40000" (ascii "SCAU1 sub ann") 1000000000 [1, 2],
    .onDatagram "10.77.77.2:40001" (ascii "SCAU1 sub bob") 2000000000 [1, 2]]

def sampleRelay : Relay String := (exec sampleHost sampleEvents).relay

theorem sampleEvents_run :
    Run sampleHost sampleEvents sampleRelay (exec sampleHost sampleEvents).effects := by
  have hone := @Run.exec_append _ sampleHost [] (.addAgent 1 501) Run.start not_mem_nil
  have htwo := @Run.exec_append _ _ _ (.addAgent 2 502) hone (by decide : 2 ∉ [1])
  have hthree := @Run.exec_append _ _ _
    (.onDatagram "10.77.77.2:40000" (ascii "SCAU1 sub ann") 1000000000 [1, 2]) htwo
    (by decide : [1, 2].Perm [2, 1])
  exact hthree.exec_append (by decide : [1, 2].Perm [2, 1])

theorem relay_isolation_sample :
    (∃ client, Serves sampleHost sampleEvents sampleRelay client 2) ∧
    Serves sampleHost sampleEvents sampleRelay "10.77.77.2:40001" 2 ∧
    ((sampleRelay.agent 1).started = true ↔ sampleRelay.active = some 1) ∧
    (∀ i command, (commandsTo 1 (exec sampleHost sampleEvents).effects)[i]? = some command →
      command = if i % 2 = 0 then cmdStart else cmdStop) ∧
    ∃ sub, subscribed sampleHost sampleEvents = some sub ∧
      sub.address = "10.77.77.2:40001" ∧ 4000000000 - sub.renewed ≤ audioSubTimeout := by
  obtain ⟨hserves, haudio, hstarted, hcommands, htick⟩ :=
    relay_isolation sampleHost sampleEvents _ _ sampleEvents_run
  have hregistered : 1 ∈ sampleRelay.agents := by decide +kernel
  refine ⟨hserves 2 rfl, ?_, hstarted 1 hregistered, hcommands 1 hregistered,
    htick 4000000000 "10.77.77.2:40001" rfl⟩
  exact (haudio (.onAgentFrame 2 frameAudio [7]) "10.77.77.2:40001" 2 [7]
    (mem_singleton.mpr rfl)).2

end Scshr.Tunnel.Relay
