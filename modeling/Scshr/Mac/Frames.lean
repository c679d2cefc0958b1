import Scshr.Mac.Commands

/-! What the commands of `init` need and what they leave, and what those of `pair` leave
alone. -/
namespace Scshr.Mac

open Common Lib Lib.Script Tunnel

/-! ## The commands of `init` -/

structure InitArgs.Valid (args : InitArgs) : Prop where
  endpoint : isEndpointHost args.endpoint
  port : isPort args.port
  macIp : isTunnelIp args.macIp
  winIp : isTunnelIp args.winIp
  differ : args.macIp ≠ args.winIp

def Machine.hasIdentity (mac : Machine) : Bool :=
  nonEmptyFile mac.privateKey && nonEmptyFile mac.publicKey

def Machine.IdentityUsable (mac : Machine) : Prop :=
  if mac.hasIdentity then isWgKey (substitution (mac.privateKey.getD [])) = true
  else mac.privateKey = none ∧ mac.publicKey = none

def Machine.identified (mac : Machine) (generated : KeyPair) : Machine :=
  { mac with
    privateKey := if mac.hasIdentity then mac.privateKey else some generated.privateKey
    publicKey := if mac.hasIdentity then mac.publicKey else some generated.publicKey }

/-- The file `install_pf` leaves. -/
def editedPf (text : Bytes) : Bytes := if loadsAnchor text then text else text ++ pfAddition

/-- What `install_pf` leaves when the activation fails. -/
def PfCalls.putBack (calls : PfCalls) (shell : Shell) : Shell :=
  match shell.backup with
  | none => shell
  | some text =>
      let mac := { shell.mac with pfConf := some text }
      { shell with mac := if calls.reloaded then mac.loadPf else mac }

section

variable (shell : Shell)

theorem answers_checkInit (args : InitArgs) :
    Answers (checkInit args) (shell.mac.pfConf ≠ none ∧ args.Valid) shell shell shell := by
  have hempty : isEndpointHost [] = false := rfl
  constructor
  · rintro ⟨hconf, hvalid⟩
    have hne : args.endpoint ≠ [] := by
      intro hnil
      have hendpoint := hvalid.endpoint
      rw [hnil, hempty] at hendpoint
      cases hendpoint
    simp [checkInit, hconf, hne, hvalid.endpoint, hvalid.port, hvalid.macIp, hvalid.winIp,
      hvalid.differ]
  · intro hrefused
    unfold checkInit
    split_ifs with hconf hne hendpoint hport hmac hwin hsame
    case neg =>
      refine absurd ⟨hconf, ?_⟩ hrefused
      exact ⟨by simpa using hendpoint, by simpa using hport, by simpa using hmac,
        by simpa using hwin, hsame⟩
    all_goals exact ⟨_, rfl⟩

theorem answers_ensureIdentity (generated : KeyPair) :
    Answers (ensureIdentity generated) shell.mac.IdentityUsable shell
      { shell with mac := shell.mac.identified generated } shell := by
  unfold Machine.IdentityUsable Machine.identified Machine.hasIdentity
  constructor
  · intro husable
    unfold ensureIdentity
    dsimp only
    split_ifs at husable ⊢ with hstored hhalf
    · rfl
    · exact absurd husable (by tauto)
    · rfl
  · intro hrefused
    unfold ensureIdentity
    dsimp only
    split_ifs at hrefused ⊢ with hstored hhalf
    · exact ⟨_, rfl⟩
    · exact ⟨_, rfl⟩
    · exact absurd hrefused (by tauto)

theorem answers_writeConf (lowerRunes : Bytes → Bytes) :
    Answers (writeConf lowerRunes) (∃ conf, parseConf lowerRunes shell.mac.staged = .ok conf) shell
      { shell with
        mac := { shell.mac with conf := some shell.mac.staged }
        written := decide (shell.mac.conf ≠ some shell.mac.staged) } shell := by
  constructor
  · rintro ⟨conf, hparse⟩
    exact writeConf_ok rfl hparse
  · intro hrefused
    cases hparse : parseConf lowerRunes shell.mac.staged with
    | error why => exact ⟨_, writeConf_error rfl hparse⟩
    | ok conf => exact absurd ⟨conf, hparse⟩ hrefused

theorem answers_installAnchor (calls : PfCalls) :
    Answers (installAnchor calls) calls.anchorOk shell
      { shell with mac := { shell.mac with pfAnchor := some shell.mac.stagedAnchor } } shell := by
  constructor
  · intro hok
    simp [installAnchor, hok]
  · intro hrefused
    exact ⟨_, if_pos (by simpa using hrefused)⟩

theorem answers_editPfConf (calls : PfCalls) :
    Answers (editPfConf calls)
      (∃ text, shell.mac.pfConf = some text ∧ (loadsAnchor text ∨ calls.confOk)) shell
      { shell with
        mac := { shell.mac with pfConf := some (editedPf (shell.mac.pfConf.getD [])) }
        backup := if loadsAnchor (shell.mac.pfConf.getD []) then none
          else some (shell.mac.pfConf.getD []) } shell := by
  cases hconf : shell.mac.pfConf with
  | none =>
    constructor
    · rintro ⟨text, htext, -⟩
      cases htext
    · exact fun _ => ⟨.failed, by simp only [editPfConf, hconf]⟩
  | some text =>
    simp only [Option.some.injEq, exists_eq_left', Option.getD_some, editedPf]
    constructor
    · intro hanswered
      cases hloads : loadsAnchor text with
      | true =>
        have hsame : { shell.mac with pfConf := some text } = shell.mac := by rw [← hconf]
        simp only [editPfConf, hconf, hloads, if_true, hsame]
      | false =>
        have hok : calls.confOk := by simpa [hloads] using hanswered
        simp [editPfConf, hconf, hloads, hok]
    · intro hrefused
      rw [not_or] at hrefused
      simp [editPfConf, hconf, hrefused.1, hrefused.2]

theorem answers_activatePf (calls : PfCalls) :
    Answers (activatePf calls) calls.activated shell { shell with mac := shell.mac.loadPf }
      (calls.putBack shell) := by
  constructor
  · intro hok
    rw [activatePf, if_pos hok]
  · intro hrefused
    rw [activatePf, if_neg hrefused, PfCalls.putBack]
    cases shell.backup with
    | none => exact ⟨_, rfl⟩
    | some text => exact ⟨_, rfl⟩

theorem answers_installHelper (calls : InitCalls) :
    Answers (installHelper calls) (calls.noHelper = none) shell shell shell := by
  unfold installHelper
  constructor
  · intro hnone
    rw [hnone]
    rfl
  · intro hsome
    obtain ⟨text, htext⟩ := Option.ne_none_iff_exists'.mp hsome
    exact ⟨.died text, by rw [htext]; rfl⟩

theorem answers_daemonUnload (calls : DaemonCalls) :
    Answers (daemonUnload calls) (calls.holder = none) shell
      { shell with mac := { shell.mac with daemon := none } }
      { shell with mac := { shell.mac with daemon := none } } := by
  unfold daemonUnload
  cases calls.holder with
  | none => exact ⟨fun _ => rfl, fun hnot => absurd rfl hnot⟩
  | some holder => exact ⟨fun hnone => (nomatch hnone), fun _ => ⟨_, rfl⟩⟩

theorem daemonLoad_installed (hplist : shell.mac.plist) :
    daemonLoad shell =
      (none, { shell with mac := { shell.mac with daemon := shell.mac.conf } }) := by
  simp [daemonLoad, hplist]

theorem answers_waitUp (calls : DaemonCalls) (failure : String) :
    Answers (waitUp calls failure)
      (calls.up ∧ (calls.port = [] ∨
        calls.port = shell.mac.setting "listen_port" defaultListenPort)) shell shell shell := by
  unfold waitUp
  constructor
  · rintro ⟨hup, hport⟩
    have hlisten : ¬(calls.port ≠ [] ∧
        calls.port ≠ shell.mac.setting "listen_port" defaultListenPort) := by tauto
    simp [hup, hlisten]
  · intro hrefused
    dsimp only
    split_ifs with hup hport
    · exact ⟨_, rfl⟩
    · exact ⟨_, rfl⟩
    · refine absurd ⟨by simpa using hup, ?_⟩ hrefused
      tauto

end

/-! ## The commands of `pair` -/

/-- Neither the settings nor the LaunchDaemon or the firewall is changed. -/
structure Quiet (before after : Shell) : Prop where
  settings : after.mac.settings = before.mac.settings
  pfConf : after.mac.pfConf = before.mac.pfConf
  pfAnchor : after.mac.pfAnchor = before.mac.pfAnchor
  pfLoaded : after.mac.pfLoaded = before.mac.pfLoaded
  plist : after.mac.plist = before.mac.plist
  backup : after.backup = before.backup

theorem Quiet.refl (shell : Shell) : Quiet shell shell := ⟨rfl, rfl, rfl, rfl, rfl, rfl⟩

theorem quiet_writeConf (lowerRunes : Bytes → Bytes) (shell : Shell) :
    Quiet shell (writeConf lowerRunes shell).2 := by
  cases hparse : parseConf lowerRunes shell.mac.staged with
  | error why =>
    rw [writeConf_error rfl hparse]
    exact .refl shell
  | ok conf =>
    rw [writeConf_ok rfl hparse]
    exact ⟨rfl, rfl, rfl, rfl, rfl, rfl⟩

theorem quiet_daemonUnload (calls : DaemonCalls) (shell : Shell) :
    Quiet shell (daemonUnload calls shell).2 := by
  unfold daemonUnload
  dsimp only
  split <;> exact ⟨rfl, rfl, rfl, rfl, rfl, rfl⟩

theorem quiet_daemonLoad (shell : Shell) : Quiet shell (daemonLoad shell).2 := by
  unfold daemonLoad
  split_ifs <;> exact ⟨rfl, rfl, rfl, rfl, rfl, rfl⟩

theorem quiet_waitUp (calls : DaemonCalls) (failure : String) (shell : Shell) :
    Quiet shell (waitUp calls failure shell).2 := by
  unfold waitUp
  dsimp only
  split_ifs <;> exact .refl shell

theorem quiet_ifWritten (h : ∀ shell, Quiet shell (command shell).2) (shell : Shell) :
    Quiet shell (ifWritten command shell).2 := by
  unfold ifWritten
  split_ifs
  · exact h shell
  · exact .refl shell

end Scshr.Mac
