import Scshr.App.Setup
import Scshr.Mac.Frames
import Scshr.Mac.PairingAgreement

/-! How far `init` comes on a Mac, whatever is installed there: what each of its commands
asks for, and the state in front of each of them. -/
namespace Scshr.App

open Common Lib Lib.Script Tunnel Mac

namespace SetupRun

variable (lowerRunes : Bytes → Bytes) (run : SetupRun)

/-- The Mac with the identity and the settings of this `init`. -/
def saved : Machine :=
  { run.mac.identified run.initCalls.generated with
    settings := some (settingsText run.args.endpoint run.args.port run.args.macIp run.args.winIp
      (run.mac.setting "peer_public_key" [])) }

def pfBefore : Bytes := run.mac.pfConf.getD []

/-- What the command behind `n` completed ones asks for. -/
def Answered : Nat → Prop
  | 0 => run.mac.pfConf ≠ none ∧ run.args.Valid
  | 1 => run.mac.IdentityUsable
  | 3 => ∃ conf, parseConf lowerRunes run.saved.staged = .ok conf
  | 4 => run.initCalls.pf.anchorOk
  | 5 => ∃ text, run.mac.pfConf = some text ∧ (loadsAnchor text ∨ run.initCalls.pf.confOk)
  | 6 => run.initCalls.pf.activated
  | 7 => run.initCalls.noHelper = none
  | 9 => run.initCalls.daemon.holder = none
  | 11 => run.initCalls.daemon.up ∧ (run.initCalls.daemon.port = [] ∨
      run.initCalls.daemon.port = run.saved.setting "listen_port" defaultListenPort)
  | 12 => isWgKey (substitution (run.saved.publicKey.getD [])) ∧ run.args.Valid
  | _ => True

/-- The state behind `n` completed commands. -/
def stage (n : Nat) : Shell where
  mac :=
    { settings := if 3 ≤ n then run.saved.settings else run.mac.settings
      conf := if 4 ≤ n then some run.saved.staged else run.mac.conf
      privateKey := if 2 ≤ n then run.saved.privateKey else run.mac.privateKey
      publicKey := if 2 ≤ n then run.saved.publicKey else run.mac.publicKey
      pfConf := if 6 ≤ n then some (editedPf run.pfBefore) else run.mac.pfConf
      pfAnchor := if 5 ≤ n then some run.saved.stagedAnchor else run.mac.pfAnchor
      pfLoaded :=
        if 7 ≤ n then some (editedPf run.pfBefore, some run.saved.stagedAnchor)
        else run.mac.pfLoaded
      plist := if 9 ≤ n then true else run.mac.plist
      daemon :=
        if 11 ≤ n then some run.saved.staged else if 10 ≤ n then none else run.mac.daemon }
  backup := if 6 ≤ n then if loadsAnchor run.pfBefore then none else some run.pfBefore else none
  written := if 4 ≤ n then decide (run.mac.conf ≠ some run.saved.staged) else false

/-- The state in which the command behind `n` completed ones leaves the script. -/
def broken : Nat → Shell
  | 6 => run.initCalls.pf.putBack (run.stage 6)
  | 9 => { run.stage 9 with mac := { (run.stage 9).mac with daemon := none } }
  | n => run.stage n

theorem stage_zero : run.stage 0 = { mac := run.mac } := rfl

theorem answers_printServerCode (args : InitArgs) (shell : Shell) :
    Answers (printServerCode args)
      (isWgKey (substitution (shell.mac.publicKey.getD [])) ∧ args.Valid) shell shell shell := by
  cases hcode : renderServerCode (substitution (shell.mac.publicKey.getD [])) args.endpoint
      args.port args.macIp args.winIp with
  | ok code =>
    obtain ⟨hkey, hendpoint, hport, hmac, hwin, hdiffer, -⟩ := renderServerCode_ok_iff.mp hcode
    refine ⟨fun _ => by rw [printServerCode, hcode], fun hrefused => absurd ⟨hkey, ?_⟩ hrefused⟩
    exact ⟨hendpoint, hport, hmac, hwin, hdiffer⟩
  | error why =>
    constructor
    · rintro ⟨hkey, hvalid⟩
      have hsome := renderServerCode_ok_iff.mpr ⟨hkey, hvalid.endpoint, hvalid.port, hvalid.macIp,
        hvalid.winIp, hvalid.differ, rfl⟩
      rw [hcode] at hsome
      cases hsome
    · exact fun _ => ⟨.died why, by rw [printServerCode, hcode]⟩

theorem staged_cmdInit :
    Staged run.stage run.broken (run.Answered lowerRunes) 0
      (cmdInit lowerRunes run.args run.initCalls) :=
  ⟨answers_checkInit (run.stage 0) run.args,
    answers_ensureIdentity (run.stage 1) run.initCalls.generated,
    .always (by rfl) (run.stage 2), answers_writeConf (run.stage 3) lowerRunes,
    answers_installAnchor (run.stage 4) run.initCalls.pf,
    answers_editPfConf (run.stage 5) run.initCalls.pf,
    answers_activatePf (run.stage 6) run.initCalls.pf,
    answers_installHelper (run.stage 7) run.initCalls, .always (by rfl) (run.stage 8),
    answers_daemonUnload (run.stage 9) run.initCalls.daemon,
    .always (daemonLoad_installed (run.stage 10) rfl) (run.stage 10),
    answers_waitUp (run.stage 11) run.initCalls.daemon _,
    answers_printServerCode run.args (run.stage 12), trivial⟩

/-! ## How `init` ends -/

def CutBehind (n : Nat) : Prop :=
  run.initCut = some n ∧ ∀ i < n, run.Answered lowerRunes i

def FailsAt (n : Nat) : Prop :=
  (∀ done, run.initCut = some done → n < done) ∧ (∀ i < n, run.Answered lowerRunes i) ∧
    ¬run.Answered lowerRunes n

def Completes : Prop := run.initCut = none ∧ ∀ n, run.Answered lowerRunes n

theorem init_ends :
    (∃ n, run.CutBehind lowerRunes n) ∨ (∃ n, run.FailsAt lowerRunes n) ∨
      run.Completes lowerRunes := by
  by_cases hall : ∀ n, (∀ done, run.initCut = some done → n < done) → run.Answered lowerRunes n
  · cases hcut : run.initCut with
    | none => exact .inr (.inr ⟨hcut, fun n => hall n (by simp [hcut])⟩)
    | some done => exact .inl ⟨done, hcut, fun i hi => hall i (by simpa [hcut] using hi)⟩
  · -- the first command that does not get its answer
    classical
    simp only [not_forall] at hall
    obtain ⟨huncut, hnot⟩ := Nat.find_spec hall
    refine .inr (.inl ⟨Nat.find hall, huncut, fun i hi => ?_, hnot⟩)
    have hbefore := Nat.find_min hall hi
    rw [not_exists] at hbefore
    exact not_not.mp (hbefore fun done hdone => hi.trans (huncut done hdone))

theorem answered_end (h : 13 ≤ n) : run.Answered lowerRunes n := by
  unfold Answered
  split <;> first | omega | trivial

theorem stage_end (h : 11 ≤ n) : run.stage n = run.stage 13 := by
  have hbelow : ∀ limit ≤ 11, limit ≤ n := fun limit hlimit => hlimit.trans h
  simp only [stage, hbelow, Nat.reduceLeDiff, if_true]

variable {lowerRunes} {run}

theorem CutBehind.runHelper_eq (h : run.CutBehind lowerRunes n) :
    runHelper (cmdInit lowerRunes run.args run.initCalls) run.initCut run.mac =
      (false, (run.stage n).mac) := by
  have hlength : (cmdInit lowerRunes run.args run.initCalls).length = 13 := rfl
  obtain ⟨hcut, hbefore⟩ := h
  rw [hcut, runHelper_some, ← stage_zero]
  by_cases hn : n ≤ 13
  · rw [(run.staged_cmdInit lowerRunes).run_take hn fun i hi => by simpa using hbefore i hi,
      Nat.zero_add]
  · have hrun := (run.staged_cmdInit lowerRunes).run_take (Nat.le_refl 13) fun i hi => by
      simpa using hbefore i (by omega)
    rw [List.take_of_length_le (le_of_eq hlength), Nat.zero_add] at hrun
    rw [List.take_of_length_le (by omega), hrun, run.stage_end (n := n) (by omega)]

theorem FailsAt.runHelper_eq (h : run.FailsAt lowerRunes n) :
    runHelper (cmdInit lowerRunes run.args run.initCalls) run.initCut run.mac =
      (false, (run.broken n).mac) := by
  have hlength : (cmdInit lowerRunes run.args run.initCalls).length = 13 := rfl
  obtain ⟨huncut, hbefore, hnot⟩ := h
  have hn : n < 13 := by
    by_contra hge
    exact hnot (run.answered_end lowerRunes (Nat.not_lt.mp hge))
  have hstops (limit : Nat) (hlimit : n < limit) := (run.staged_cmdInit lowerRunes).run_stops hn
    (fun i hi => by simpa using hbefore i hi) (by simpa using hnot) hlimit
  rw [Nat.zero_add, stage_zero] at hstops
  cases hcut : run.initCut with
  | none =>
    obtain ⟨error, herror⟩ := hstops 13 hn
    rw [← hlength, List.take_length] at herror
    rw [runHelper_none, herror]
    rfl
  | some done =>
    obtain ⟨error, herror⟩ := hstops done (huncut done hcut)
    rw [runHelper_some, herror]

theorem Completes.runHelper_eq (h : run.Completes lowerRunes) :
    runHelper (cmdInit lowerRunes run.args run.initCalls) run.initCut run.mac =
      (true, (run.stage 13).mac) := by
  have hlength : (cmdInit lowerRunes run.args run.initCalls).length = 13 := rfl
  have hrun := (run.staged_cmdInit lowerRunes).run_take le_rfl fun i _ => h.2 (0 + i)
  rw [List.take_length, hlength, stage_zero, Nat.zero_add] at hrun
  rw [h.1, runHelper_none, hrun]
  rfl

end SetupRun

end Scshr.App
