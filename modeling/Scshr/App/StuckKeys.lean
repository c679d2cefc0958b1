import Scshr.App.Keyboard

/-! Which keys stay down at the session.  A press and the release of the same key
may take different paths; the invariant says which held key will release each
keysym that is down, and the two conditions under which it does. -/
namespace Scshr.App

open List

section Conditions

variable {mapVirtualKey : Nat → Nat}

def Stuck (sent : List KeySent) (ks : Nat) : Prop :=
  ∃ before after, sent = before ++ ⟨true, ks⟩ :: after ∧ ⟨false, ks⟩ ∉ after

def Key.keysym (key : Key mapVirtualKey) : Nat :=
  let ks := vkToKeysym key.vk key.extended
  if ks = 0 then vkToKeysymLetter key.vk else ks

def Key.Special (key : Key mapVirtualKey) : Prop := vkToKeysym key.vk key.extended ≠ 0

instance (key : Key mapVirtualKey) : Decidable key.Special :=
  inferInstanceAs (Decidable (vkToKeysym key.vk key.extended ≠ 0))

/-- The keyboard only does this while the hook is on, and releases what is held. -/
def Possible (state : State mapVirtualKey) : Event mapVirtualKey → Prop
  | .press _ _ => state.enabled = true
  | .release key => state.enabled = true ∧ key ∈ state.held
  | .disable => state.enabled = true

/-- A printable key that the hook has sent is released under a modifier bit, and
at `disable` whatever has been sent for a held key is what `disable` releases. -/
def Considerate (state : State mapVirtualKey) : Event mapVirtualKey → Prop
  | .press _ _ => True
  | .release key => ¬ key.Special → key ∈ state.hooked → state.mods ≠ {}
  | .disable => ∀ key ∈ state.held, key.Special ∨ key ∈ state.hooked →
      key.keysym ∈ modifierUps state.mods

def Along (holds : State mapVirtualKey → Event mapVirtualKey → Prop)
    (state : State mapVirtualKey) : List (Event mapVirtualKey) → Prop
  | [] => True
  | event :: rest => holds state event ∧ Along holds (state.step event) rest

end Conditions

section Stuck

variable {sent later : List KeySent} {ks : Nat}

theorem stuck_append (h : Stuck (sent ++ later) ks) :
    Stuck later ks ∨ Stuck sent ks ∧ ⟨false, ks⟩ ∉ later := by
  obtain ⟨before, after, hsplit, hup⟩ := h
  rcases append_eq_append_iff.mp hsplit with ⟨mid, hbefore, hlater⟩ | ⟨mid, hsent, hrest⟩
  · exact .inl ⟨mid, after, hlater, hup⟩
  · cases mid with
    | nil => exact .inl ⟨[], after, hrest.symm, hup⟩
    | cons event mid =>
      rw [cons_append, List.cons.injEq] at hrest
      obtain ⟨rfl, rfl⟩ := hrest
      rw [mem_append, not_or] at hup
      exact .inr ⟨⟨before, mid, hsent, hup.1⟩, hup.2⟩

theorem not_stuck_nil : ¬ Stuck [] ks := by
  rintro ⟨before, after, hsplit, -⟩
  simp at hsplit

theorem stuck_singleton (h : Stuck [event] ks) : event = ⟨true, ks⟩ := by
  obtain ⟨before, after, hsplit, -⟩ := h
  have hmem : (⟨true, ks⟩ : KeySent) ∈ [event] := by rw [hsplit]; simp
  exact (mem_singleton.mp hmem).symm

theorem not_stuck_ups (ups : List Nat) : ¬ Stuck (ups.map (KeySent.mk false)) ks := by
  rintro ⟨before, after, hsplit, -⟩
  have hmem : (⟨true, ks⟩ : KeySent) ∈ ups.map (KeySent.mk false) := by rw [hsplit]; simp
  simp at hmem

theorem not_stuck_onChar (cp : Nat) : ¬ Stuck (onChar cp) ks := by
  intro h
  have hpair : Stuck ([⟨true, cp⟩] ++ [⟨false, cp⟩]) ks := h
  rcases stuck_append hpair with hdown | ⟨hdown, hup⟩
  · cases stuck_singleton hdown
  · cases stuck_singleton hdown
    exact hup (mem_singleton.mpr rfl)

theorem not_stuck_windowChar (hi c : Nat) : ¬ Stuck (windowChar hi c).2 ks := by
  unfold windowChar
  split
  · split
    · exact not_stuck_nil
    · split <;> exact not_stuck_onChar _
  · exact not_stuck_nil

theorem not_stuck_windowChars (hi : Nat) (units : List Nat) :
    ¬ Stuck (windowChars hi units).2 ks := by
  induction units generalizing hi with
  | nil => exact not_stuck_nil
  | cons c rest ih =>
    intro h
    rcases stuck_append h with h | ⟨h, -⟩
    · exact ih _ h
    · exact not_stuck_windowChar hi c h

end Stuck

section Paths

variable {mapVirtualKey : Nat → Nat} (key : Key mapVirtualKey)

theorem Key.keysym_of_special (h : key.Special) :
    key.keysym = vkToKeysym key.vk key.extended :=
  if_neg h

theorem special_of_commandModifier (h : isCommandModifier key.vk = true) : key.Special := by
  simp only [isCommandModifier, Bool.or_eq_true, decide_eq_true_eq] at h
  unfold Key.Special
  rcases h with (((((h | h) | h) | h) | h) | h) | h <;> rw [h] <;> simp [vkToKeysym, vkLWin,
    vkRWin, vkLControl, vkRControl, vkControl, vkLMenu, vkMenu]

theorem hookHandle_cases (mods : Mods) (down : Bool) :
    (∃ mods', hookHandle mods true down ⟨key.vk, key.extended, 0⟩ = (mods', some key.keysym) ∧
      key.keysym ≠ 0) ∨
    (hookHandle mods true down ⟨key.vk, key.extended, 0⟩ = (mods, none) ∧
      isCommandModifier key.vk = false ∧ (mods = {} ∨ key.keysym = 0)) := by
  unfold hookHandle
  cases hcmd : isCommandModifier key.vk with
  | true =>
    have hspecial := special_of_commandModifier key hcmd
    have hks := Key.keysym_of_special key hspecial
    refine .inl ⟨mods.set key.vk down, ?_, hks ▸ hspecial⟩
    simp [hks]
  | false =>
    by_cases hmods : mods = {}
    · exact .inr ⟨by simp [hmods], rfl, .inl hmods⟩
    · by_cases hks : key.keysym = 0
      · refine .inr ⟨?_, rfl, .inr hks⟩
        unfold Key.keysym at hks
        simp only [hmods, hks]
        simp
      · refine .inl ⟨mods, ?_, hks⟩
        unfold Key.keysym at hks ⊢
        simp only [hmods, hks]
        simp

theorem windowVk_messageVk (hcmd : isCommandModifier key.vk = false) :
    windowVk mapVirtualKey (messageVk key.vk) key.scan key.extended = key.vk := by
  simp only [isCommandModifier, Bool.or_eq_false_iff, decide_eq_false_iff_not] at hcmd
  obtain ⟨⟨⟨⟨⟨-, hlcontrol⟩, hrcontrol⟩, -⟩, hlmenu⟩, -⟩ := hcmd
  obtain ⟨hshift, hcontrol, hmenu⟩ := key.sided
  by_cases hsides : key.vk = vkLShift ∨ key.vk = vkRShift
  · simp [messageVk, windowVk, hsides, key.shift hsides]
  by_cases hright : key.vk = vkRMenu
  · simp [messageVk, windowVk, hright, key.rightAlt hright, vkRMenu, vkLShift, vkRShift,
      vkLControl, vkRControl, vkMenu, vkShift, vkControl]
  · simp [messageVk, windowVk, hsides, hlcontrol, hrcontrol, hlmenu, hright, hshift, hcontrol,
      hmenu]

theorem windowKey_eq (hcmd : isCommandModifier key.vk = false) (down : Bool) :
    windowKey mapVirtualKey down (messageVk key.vk) key.scan key.extended =
      if key.Special then [⟨down, key.keysym⟩] else [] := by
  simp only [windowKey, windowVk_messageVk key hcmd]
  by_cases hspecial : key.Special
  · rw [if_pos hspecial, Key.keysym_of_special key hspecial]
    exact if_pos hspecial
  · rw [if_neg hspecial]
    exact if_neg hspecial

end Paths

section Runs

variable {mapVirtualKey : Nat → Nat} {state : State mapVirtualKey}

theorem State.key_cases (state : State mapVirtualKey) (henabled : state.enabled = true)
    (down : Bool) (key : Key mapVirtualKey) (units : List Nat) :
    (∃ mods, key.keysym ≠ 0 ∧ state.key down key units =
      { state with
        mods := mods
        sent := state.sent ++ [⟨down, key.keysym⟩]
        hooked := if down then key :: state.hooked else state.hooked }) ∨
    ((state.mods = {} ∨ key.keysym = 0) ∧ state.key down key units =
      { state with
        hi := (windowChars state.hi units).1
        sent := state.sent ++ (if key.Special then [⟨down, key.keysym⟩] else []) ++
          (windowChars state.hi units).2 }) := by
  unfold State.key
  rcases hookHandle_cases key state.mods down with ⟨mods, htaken, hks⟩ | ⟨hpass, hcmd, hwhy⟩
  · exact .inl ⟨mods, hks, by simp [henabled, htaken]⟩
  · exact .inr ⟨hwhy, by simp [henabled, hpass, windowKey_eq key hcmd]⟩

/-- Every keysym that is down at the session belongs to a held key that will
release it, and after `disable` none is down. -/
structure Accounted (state : State mapVirtualKey) : Prop where
  known : ∀ key ∈ state.hooked, key.keysym ≠ 0
  owner : ∀ ks, Stuck state.sent ks →
    ∃ key ∈ state.held, key.keysym = ks ∧ (key.Special ∨ key ∈ state.hooked)
  off : state.enabled = false → ∀ ks, ¬ Stuck state.sent ks

theorem accounted_start : Accounted ({} : State mapVirtualKey) where
  known := by simp
  owner := fun ks h => absurd h not_stuck_nil
  off := fun h => by cases h

theorem Accounted.press (h : Accounted state) (henabled : state.enabled = true)
    (key : Key mapVirtualKey) (units : List Nat) : Accounted (state.step (.press key units)) := by
  simp only [State.step]
  rcases state.key_cases henabled true key units with ⟨mods, hks, hkey⟩ | ⟨-, hkey⟩
  · rw [hkey]
    refine ⟨?_, ?_, fun hoff => by simp [henabled] at hoff⟩
    · intro other hother
      rcases mem_cons.mp hother with rfl | hother
      · exact hks
      · exact h.known other hother
    · intro ks hstuck
      rcases stuck_append hstuck with hnew | ⟨hold, -⟩
      · have := stuck_singleton hnew
        exact ⟨key, by simp, by simpa using this, .inr (by simp)⟩
      · obtain ⟨other, hheld, hother, hwhy⟩ := h.owner ks hold
        exact ⟨other, by simp [hheld], hother, hwhy.imp_right fun hmem => by simp [hmem]⟩
  · rw [hkey]
    refine ⟨h.known, ?_, fun hoff => by simp [henabled] at hoff⟩
    intro ks hstuck
    rcases stuck_append hstuck with hnew | ⟨hold, -⟩
    · exact absurd hnew (not_stuck_windowChars _ _)
    rcases stuck_append hold with hnew | ⟨hold, -⟩
    · by_cases hspecial : key.Special
      · rw [if_pos hspecial] at hnew
        have := stuck_singleton hnew
        exact ⟨key, by simp, by simpa using this, .inl hspecial⟩
      · rw [if_neg hspecial] at hnew
        exact absurd hnew not_stuck_nil
    · obtain ⟨other, hheld, hother, hwhy⟩ := h.owner ks hold
      exact ⟨other, by simp [hheld], hother, hwhy⟩

theorem Accounted.release_sent (h : Accounted state) (henabled : state.enabled = true)
    (hcareful : Considerate state (.release key)) :
    ∃ (mods : Mods) (hi : Nat) (ups : List Nat), state.key false key [] =
        { state with
          mods := mods
          hi := hi
          sent := state.sent ++ ups.map (KeySent.mk false) } ∧
      (key.Special ∨ key ∈ state.hooked → key.keysym ∈ ups) := by
  rcases state.key_cases henabled false key [] with ⟨mods, hks, hkey⟩ | ⟨hwhy, hkey⟩
  · exact ⟨mods, state.hi, [key.keysym], by simp [hkey], by simp⟩
  · by_cases hspecial : key.Special
    · exact ⟨state.mods, state.hi, [key.keysym], by simp [hkey, hspecial, windowChars], by simp⟩
    · refine ⟨state.mods, state.hi, [], by simp [hkey, hspecial, windowChars], ?_⟩
      rintro (hbad | hhooked)
      · exact absurd hbad hspecial
      · exact (hwhy.elim (hcareful hspecial hhooked) (h.known key hhooked)).elim

theorem Accounted.release (h : Accounted state) (henabled : state.enabled = true)
    (hcareful : Considerate state (.release key)) : Accounted (state.step (.release key)) := by
  obtain ⟨mods, hi, ups, hkey, howned⟩ := h.release_sent henabled hcareful
  simp only [State.step, hkey]
  refine ⟨?_, ?_, fun hoff => by simp [henabled] at hoff⟩
  · intro other hother
    exact h.known other (mem_filter.mp hother).1
  · intro ks hstuck
    rcases stuck_append hstuck with hnew | ⟨hold, hup⟩
    · exact absurd hnew (not_stuck_ups ups)
    obtain ⟨other, hheld, rfl, hwhy⟩ := h.owner ks hold
    have hne : other ≠ key := by
      rintro rfl
      exact hup (mem_map.mpr ⟨_, howned hwhy, rfl⟩)
    exact ⟨other, by simp [hheld, hne], rfl, hwhy.imp_right fun hmem => by simp [hmem, hne]⟩

theorem Accounted.disable (h : Accounted state) (henabled : state.enabled = true)
    (hcareful : Considerate state .disable) : Accounted (state.step .disable) := by
  have hnone : ∀ ks,
      ¬ Stuck (state.sent ++ (modifierUps state.mods).map (KeySent.mk false)) ks := by
    intro ks hstuck
    rcases stuck_append hstuck with hnew | ⟨hold, hup⟩
    · exact not_stuck_ups _ hnew
    · obtain ⟨key, hheld, rfl, hwhy⟩ := h.owner ks hold
      exact hup (mem_map.mpr ⟨_, hcareful key hheld hwhy, rfl⟩)
  simp only [State.step, henabled, Bool.not_true, Bool.false_eq_true, if_false]
  exact ⟨h.known, fun ks hstuck => absurd hstuck (hnone ks), fun _ => hnone⟩

theorem Accounted.step (h : Accounted state) (hpossible : Possible state event)
    (hcareful : Considerate state event) : Accounted (state.step event) := by
  cases event with
  | press key units => exact h.press hpossible key units
  | release key => exact h.release hpossible.1 hcareful
  | disable => exact h.disable hpossible hcareful

theorem Accounted.run (h : Accounted state) (hpossible : Along Possible state events)
    (hcareful : Along Considerate state events) : Accounted (state.run events) := by
  induction events generalizing state with
  | nil => exact h
  | cons event rest ih =>
    exact ih (h.step hpossible.1 hcareful.1) hpossible.2 hcareful.2

end Runs

/-- No stuck keys, as long as every printable key that the hook has sent is let
go under a modifier bit and `disable` finds only what it releases: once all keys
are up or the hook is off, every key-down has been followed by its key-up. -/
theorem no_stuck_keys {mapVirtualKey : Nat → Nat} (events : List (Event mapVirtualKey))
    (hpossible : Along Possible {} events) (hcareful : Along Considerate {} events)
    (hover : (State.run {} events).held = [] ∨ (State.run {} events).enabled = false) (ks : Nat) :
    ¬ Stuck (State.run {} events).sent ks := by
  have haccount := accounted_start.run hpossible hcareful
  intro hstuck
  rcases hover with hheld | hoff
  · obtain ⟨key, hmem, -⟩ := haccount.owner ks hstuck
    rw [hheld] at hmem
    cases hmem
  · exact haccount.off hoff ks hstuck

def pcShift (scan : Nat) : Nat := if scan = 0x36 then vkRShift else vkLShift

def leftControl : Key pcShift :=
  ⟨vkLControl, 0x1D, false, by decide, by decide, by decide⟩

def letterA : Key pcShift :=
  ⟨0x41, 0x1E, false, by decide, by decide, by decide⟩

/-- Control and A, the letter released first. -/
theorem no_stuck_keys_letterFirst :
    (State.run {} [.press leftControl [], .press letterA [], .release letterA,
      .release leftControl]).held = [] ∧
    ¬ Stuck (State.run {} [.press leftControl [], .press letterA [], .release letterA,
      .release leftControl]).sent 0x61 := by
  have hheld : (State.run {} [.press leftControl [], .press letterA [], .release letterA,
      .release leftControl]).held = [] := by decide
  refine ⟨hheld, no_stuck_keys _ ?_ ?_ (.inl hheld) 0x61⟩
  · simp only [Along, Possible]
    decide
  · simp only [Along, Considerate]
    decide

/-- Control and A, Control released first: the key-up of the letter finds no
modifier bit, passes the hook, and means nothing to the window. -/
theorem controlFirst_letter_stuck :
    Along Possible {} [.press leftControl [], .press letterA [0x61], .release leftControl,
      .release letterA] ∧
    (State.run {} [.press leftControl [], .press letterA [0x61], .release leftControl,
      .release letterA]).held = [] ∧
    Stuck (State.run {} [.press leftControl [], .press letterA [0x61], .release leftControl,
      .release letterA]).sent 0x61 := by
  refine ⟨?_, by decide, [⟨true, 0xffe3⟩], [⟨false, 0xffe3⟩], by decide, by decide⟩
  simp only [Along, Possible]
  decide

end Scshr.App
