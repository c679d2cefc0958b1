import Scshr.Mac.Commands

/-! `run_setup` (`app/setup.cpp`) up to the pairing: what its remote commands leave on the
Mac, and what its outcome says about it.  How the connection and the remote tools behave is
an input. -/
namespace Scshr.App

open Common Lib Tunnel Mac

/-- `run_helper`: whether the exit code is zero, and the Mac that is left.  The script may be
cut off behind so many of its commands, by a timeout, a cancelled wait, a lost connection or
a `sudo` that refuses to start it. -/
def runHelper (commands : List Mac.Command) (cut : Option Nat) (mac : Machine) : Bool × Machine :=
  match cut with
  | none =>
    let (error, shell) := Script.run commands { mac := mac }
    (error.isNone, shell.mac)
  | some done => (false, (Script.run (commands.take done) { mac := mac }).2.mac)

section

variable (commands : List Mac.Command) (done : Nat) (mac : Machine)

theorem runHelper_none : runHelper commands none mac =
    ((Script.run commands { mac := mac }).1.isNone,
      (Script.run commands { mac := mac }).2.mac) := rfl

theorem runHelper_some : runHelper commands (some done) mac =
    (false, (Script.run (commands.take done) { mac := mac }).2.mac) := rfl

end

/-- What `detail` says of a rollback: the Mac was returned to how it was, or it could not be
put back. -/
inductive Rollback where
  | returned
  | notPutBack
  deriving DecidableEq

/-- An outcome without `ok`: the Mac behind the run, and what `detail` says of it.  Where the
rollback is not tried, `detail` holds the error alone or that nothing further was changed. -/
structure SetupOutcome where
  mac : Machine
  rollback : Option Rollback
  deriving DecidableEq

structure SetupRun where
  mac : Machine
  /-- An exception or a cancel in front of the fourth step. -/
  stoppedEarly : Bool
  args : InitArgs
  initCalls : InitCalls
  initCut : Option Nat
  /-- No pairing code in the output, a cancel, or an exception of `install_windows_tunnel`. -/
  stoppedBetween : Bool
  clientCode : Bytes
  pairCalls : PairCalls
  pairCut : Option Nat
  uninstallCalls : UninstallCalls
  uninstallCut : Option Nat
  deriving DecidableEq

def rollbackMac (run : SetupRun) (mac : Machine) : SetupOutcome :=
  let (ok, mac) := runHelper (cmdUninstall false run.uninstallCalls) run.uninstallCut mac
  ⟨mac, some (if ok then .returned else .notPutBack)⟩

/-- `run_setup`; `none` where the pairing succeeds.  `mac_needs_rollback` is set behind the
`require` of `init`, so its failures are not rolled back. -/
def runSetup (lowerRunes : Bytes → Bytes) (base64Decode : Bytes → Option Bytes) (run : SetupRun) :
    Option SetupOutcome :=
  if run.stoppedEarly then some ⟨run.mac, none⟩
  else
    let (initialised, mac) := runHelper (cmdInit lowerRunes run.args run.initCalls) run.initCut
      run.mac
    if !initialised then some ⟨mac, none⟩
    else if run.stoppedBetween then some (rollbackMac run mac)
    else
      let (paired, mac) := runHelper (cmdPair lowerRunes base64Decode run.clientCode run.pairCalls)
        run.pairCut mac
      if paired then none else some (rollbackMac run mac)

def pfRules (conf : Bytes) (anchor : Option Bytes) : List Bytes × Option Bytes :=
  ((Text.lines newline conf).filter (· ≠ []), if loadsAnchor conf then anchor else none)

structure Visible where
  settings : Option Bytes
  conf : Option Bytes
  configuredRules : Option (List Bytes × Option Bytes)
  loadedRules : Option (List Bytes × Option Bytes)
  plist : Bool
  daemon : Option Bytes
  deriving DecidableEq

def visible (mac : Machine) : Visible where
  settings := mac.settings
  conf := mac.conf
  configuredRules := mac.pfConf.map (pfRules · mac.pfAnchor)
  loadedRules := mac.pfLoaded.map fun (conf, anchor) => pfRules conf anchor
  plist := mac.plist
  daemon := mac.daemon

def SetupOutcome.Honest (outcome : SetupOutcome) (before : Machine) : Prop :=
  visible outcome.mac = visible before ∨ outcome.rollback = some .notPutBack

end Scshr.App
