import Mathlib.Data.List.Basic

/-! The keyboard paths of the viewer: the low-level hook (`app/keyboard_hook.cpp`)
sees every key first and sends what it swallows; what it lets pass reaches the
window (`app/window.cpp`) as key and character messages, and the viewer sends
from there.  One physical event runs through both before the next one. -/
namespace Scshr.App

/-- The virtual-key codes that the code tells apart by name. -/
def vkShift : Nat := 0x10
def vkControl : Nat := 0x11
def vkMenu : Nat := 0x12
def vkLWin : Nat := 0x5B
def vkRWin : Nat := 0x5C
def vkLShift : Nat := 0xA0
def vkRShift : Nat := 0xA1
def vkLControl : Nat := 0xA2
def vkRControl : Nat := 0xA3
def vkLMenu : Nat := 0xA4
def vkRMenu : Nat := 0xA5

/-- `vk_to_keysym`: the X11 keysyms of the keys that type nothing, 0 for the rest. -/
def vkToKeysym (vk : Nat) (_extended : Bool) : Nat :=
  match vk with
  | 0x1B => 0xff1b | 0x09 => 0xff09 | 0x08 => 0xff08 | 0x0D => 0xff0d
  | 0x2E => 0xffff | 0x2D => 0xff63 | 0x24 => 0xff50 | 0x23 => 0xff57
  | 0x21 => 0xff55 | 0x22 => 0xff56
  | 0x25 => 0xff51 | 0x26 => 0xff52 | 0x27 => 0xff53 | 0x28 => 0xff54
  | 0xA0 => 0xffe1 | 0xA1 => 0xffe2 | 0x10 => 0xffe1
  | 0xA2 => 0xffe3 | 0xA3 => 0xffe4 | 0x11 => 0xffe3
  | 0xA4 => 0xffe9 | 0xA5 => 0xffea | 0x12 => 0xffe9
  | 0x5B => 0xffeb | 0x5C => 0xffec | 0x14 => 0xffe5
  | vk => if 0x70 ≤ vk ∧ vk ≤ 0x87 then 0xffbe + (vk - 0x70) else 0

/-- `vk_to_keysym_letter`: the character on the key, whatever the layout. -/
def vkToKeysymLetter (vk : Nat) : Nat :=
  if 0x30 ≤ vk ∧ vk ≤ 0x39 then vk
  else if 0x41 ≤ vk ∧ vk ≤ 0x5A then vk + 0x20
  else if vk = 0x20 then 0x20
  else
    match vk with
    | 0xBA => 0x3B | 0xBB => 0x3D | 0xBC => 0x2C | 0xBD => 0x2D | 0xBE => 0x2E | 0xBF => 0x2F
    | 0xC0 => 0x60 | 0xDB => 0x5B | 0xDC => 0x5C | 0xDD => 0x5D | 0xDE => 0x27
    | 0x6A => 0x2A | 0x6B => 0x2B | 0x6D => 0x2D | 0x6E => 0x2E | 0x6F => 0x2F
    | vk => if 0x60 ≤ vk ∧ vk ≤ 0x69 then 0x30 + (vk - 0x60) else 0

structure KeySent where
  down : Bool
  keysym : Nat
  deriving DecidableEq, Repr

/-! ### The hook -/

/-- The bitmap `mods_`; a left and a right key share their bit. -/
structure Mods where
  win : Bool := false
  ctrl : Bool := false
  alt : Bool := false
  deriving DecidableEq, Repr

def isCommandModifier (vk : Nat) : Bool :=
  vk = vkLWin || vk = vkRWin || vk = vkLControl || vk = vkRControl || vk = vkControl ||
    vk = vkLMenu || vk = vkMenu

def Mods.set (mods : Mods) (vk : Nat) (down : Bool) : Mods :=
  if vk = vkLWin ∨ vk = vkRWin then { mods with win := down }
  else if vk = vkLMenu ∨ vk = vkMenu then { mods with alt := down }
  else { mods with ctrl := down }

structure HookKey where
  vkCode : Nat
  extended : Bool
  extraInfo : Nat

/-- `KeyboardHook::handle` on an event that comes with `HC_ACTION`: the bitmap
afterwards, and the keysym it sends when it swallows the event. -/
def hookHandle (mods : Mods) (foreground down : Bool) (k : HookKey) : Mods × Option Nat :=
  if !foreground then (mods, none)
  else if k.extraInfo = 0x5C5D then (mods, none)
  else if isCommandModifier k.vkCode then
    (mods.set k.vkCode down, some (vkToKeysym k.vkCode k.extended))
  else if mods = {} then (mods, none)
  else
    let ks := vkToKeysym k.vkCode k.extended
    let ks := if ks = 0 then vkToKeysymLetter k.vkCode else ks
    if ks = 0 then (mods, none) else (mods, some ks)

def modifierUps (mods : Mods) : List Nat :=
  (if mods.win then [0xffeb] else []) ++ (if mods.ctrl then [0xffe3] else []) ++
    (if mods.alt then [0xffe9] else [])

/-! ### The window -/

section Window

variable (mapVirtualKey : Nat → Nat)

def windowVk (vk scan : Nat) (extended : Bool) : Nat :=
  if vk = vkShift then mapVirtualKey scan
  else if vk = vkControl then if extended then vkRControl else vkLControl
  else if vk = vkMenu then if extended then vkRMenu else vkLMenu
  else vk

def windowKey (down : Bool) (vk scan : Nat) (extended : Bool) : List KeySent :=
  let ks := vkToKeysym (windowVk mapVirtualKey vk scan extended) extended
  if ks ≠ 0 then [⟨down, ks⟩] else []

end Window

def onChar (cp : Nat) : List KeySent := [⟨true, cp⟩, ⟨false, cp⟩]

/-- A character message; the first component is the static `hi`. -/
def windowChar (hi c : Nat) : Nat × List KeySent :=
  if 0x20 ≤ c ∧ c ≠ 0x7F then
    if 0xD800 ≤ c ∧ c ≤ 0xDBFF then (c, [])
    else if (0xDC00 ≤ c ∧ c ≤ 0xDFFF) ∧ hi ≠ 0 then
      (0, onChar (0x10000 + ((hi - 0xD800) <<< 10) + (c - 0xDC00)))
    else (hi, onChar c)
  else (hi, [])

def windowChars (hi : Nat) : List Nat → Nat × List KeySent
  | [] => (hi, [])
  | c :: rest =>
      let first := windowChar hi c
      let later := windowChars first.1 rest
      (later.1, first.2 ++ later.2)

/-! ### Both paths -/

/-- A physical key as the two paths see it.  The hook is given left and right
modifiers apart, the right Alt key is an extended one, and the scan code of a
shift key maps back to it. -/
structure Key (mapVirtualKey : Nat → Nat) where
  vk : Nat
  scan : Nat
  extended : Bool
  sided : vk ≠ vkShift ∧ vk ≠ vkControl ∧ vk ≠ vkMenu
  rightAlt : vk = vkRMenu → extended = true
  shift : vk = vkLShift ∨ vk = vkRShift → mapVirtualKey scan = vk
  deriving DecidableEq

/-- `wParam` of the messages of a key: left and right modifiers share one code. -/
def messageVk (vk : Nat) : Nat :=
  if vk = vkLShift ∨ vk = vkRShift then vkShift
  else if vk = vkLControl ∨ vk = vkRControl then vkControl
  else if vk = vkLMenu ∨ vk = vkRMenu then vkMenu
  else vk

/-- What happens at the keyboard.  A press of a held key is an auto-repeat; it
comes with the UTF-16 units that `TranslateMessage` makes of it when the window
gets to see it.  `disable` is `KeyboardHook::disable`. -/
inductive Event (mapVirtualKey : Nat → Nat) where
  | press (key : Key mapVirtualKey) (units : List Nat)
  | release (key : Key mapVirtualKey)
  | disable

/-- The state of both paths and of the keyboard: `held` are the keys that are
down, `hooked` those among them for which the hook has sent a key-down. -/
structure State (mapVirtualKey : Nat → Nat) where
  mods : Mods := {}
  enabled : Bool := true
  hi : Nat := 0
  sent : List KeySent := []
  held : List (Key mapVirtualKey) := []
  hooked : List (Key mapVirtualKey) := []

section Steps

variable {mapVirtualKey : Nat → Nat}

def State.key (state : State mapVirtualKey) (down : Bool) (key : Key mapVirtualKey)
    (units : List Nat) : State mapVirtualKey :=
  let (mods, taken) :=
    if state.enabled then hookHandle state.mods true down ⟨key.vk, key.extended, 0⟩
    else (state.mods, none)
  match taken with
  | some ks =>
      { state with
        mods := mods
        sent := state.sent ++ [⟨down, ks⟩]
        hooked := if down then key :: state.hooked else state.hooked }
  | none =>
      let chars := windowChars state.hi units
      { state with
        mods := mods
        hi := chars.1
        sent := state.sent ++
          windowKey mapVirtualKey down (messageVk key.vk) key.scan key.extended ++ chars.2 }

def State.step (state : State mapVirtualKey) : Event mapVirtualKey → State mapVirtualKey
  | .press key units =>
      let state := state.key true key units
      { state with held := key :: state.held }
  | .release key =>
      let state := state.key false key []
      { state with
        held := state.held.filter (· ≠ key)
        hooked := state.hooked.filter (· ≠ key) }
  | .disable =>
      if !state.enabled then state
      else
        { state with
          mods := {}
          enabled := false
          sent := state.sent ++ (modifierUps state.mods).map (⟨false, ·⟩) }

def State.run (state : State mapVirtualKey) (events : List (Event mapVirtualKey)) :
    State mapVirtualKey :=
  events.foldl State.step state

end Steps

end Scshr.App
