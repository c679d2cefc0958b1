import Scshr.Lib.Script
import Scshr.Mac.Shell

/-! The part of `tools/scshr-macos-tunnel.sh` that changes the Mac: settings, identity,
configuration, firewall and daemon.  What the tools of the system answer is an input. -/
namespace Scshr.Mac

open Common Lib Tunnel

/-- The files and the services the script changes.  The keys, the configuration and the
settings are those under `/usr/local/etc/scshr`. -/
structure Machine where
  settings : Option Bytes
  conf : Option Bytes
  privateKey : Option Bytes
  publicKey : Option Bytes
  pfConf : Option Bytes
  pfAnchor : Option Bytes
  /-- The texts of both at the time `pfctl` loaded them last. -/
  pfLoaded : Option (Bytes × Option Bytes)
  plist : Bool
  daemon : Option Bytes
  deriving DecidableEq

inductive Exit where
  | died (text : Bytes)
  | badCode (text : Bytes)
  | wrongAddress (text : Bytes)
  /-- `die` of `write_conf`, with what the helper reports. -/
  | validation (why : ConfError)
  | failed
  deriving DecidableEq

structure Shell where
  mac : Machine
  /-- `install_pf` edited `/etc/pf.conf`; its text before. -/
  backup : Option Bytes := none
  written : Bool := false
  winPub : Bytes := []
  winIp : Bytes := []
  deriving DecidableEq

abbrev Command := Script.Command Shell Exit

def utf8 (text : String) : Bytes := text.toUTF8.toList

def die (text : String) : Exit := .died (utf8 text)

def update (change : Machine → Machine) : Command := fun shell =>
  (none, { shell with mac := change shell.mac })

/-! ## Settings and configuration -/

def Machine.setting (mac : Machine) (key : String) (default : Bytes) : Bytes :=
  Scshr.Mac.setting mac.settings key default

def saveSettings (endpoint port macIp winIp peerPub : Bytes) : Command := update fun mac =>
  { mac with settings := some (settingsText endpoint port macIp winIp peerPub) }

def Machine.staged (mac : Machine) : Bytes :=
  let peerPub := mac.setting "peer_public_key" []
  let peerIp := mac.setting "win_ip" defaultWinIp
  renderConf (substitution (mac.privateKey.getD [])) (mac.setting "mac_ip" defaultMacIp)
    (mac.setting "listen_port" defaultListenPort)
    (if peerPub ≠ [] then some (peerPub, peerIp) else none)

section

variable (lowerRunes : Bytes → Bytes)

/-- `write_conf` behind `render_conf`; the helper's `check` is `parseConf`. -/
def writeStaged (staged : Bytes) : Command := fun shell =>
  match parseConf lowerRunes staged with
  | .error why => (some (.validation why), shell)
  | .ok _ =>
      if shell.mac.conf = some staged then (none, { shell with written := false })
      else (none, { shell with
        mac := { shell.mac with conf := some staged }
        written := true })

def writeConf : Command := fun shell => writeStaged lowerRunes shell.mac.staged shell

variable {lowerRunes : Bytes → Bytes} {shell : Shell} {text : Bytes}

theorem writeConf_error (hstaged : shell.mac.staged = text)
    (h : parseConf lowerRunes text = .error why) :
    writeConf lowerRunes shell = (some (.validation why), shell) := by
  rw [writeConf, hstaged, writeStaged, h]

theorem writeConf_ok (hstaged : shell.mac.staged = text)
    (h : parseConf lowerRunes text = .ok conf) :
    writeConf lowerRunes shell = (none, { shell with
      mac := { shell.mac with conf := some text }
      written := decide (shell.mac.conf ≠ some text) }) := by
  rw [writeConf, hstaged, writeStaged, h]
  dsimp only
  split
  · next hsame => simp [← hsame]
  · next hother => simp [hother]

end

/-! ## The firewall -/

def pfComment : Bytes :=
  ascii "# scshr application tunnel isolation (added by scshr-macos-tunnel.sh)"

def pfAnchorLine : Bytes := ascii "anchor \"scshr\""

def pfLoadLine : Bytes := ascii "load anchor \"scshr\" from \"/etc/pf.anchors/scshr\""

def pfAddition : Bytes :=
  Text.unlines newline [[], pfComment, pfAnchorLine, pfLoadLine]

def loadsAnchor (pfConf : Bytes) : Bool := grepQuiet (Text.contains pfLoadLine) pfConf

/-- What `pfctl` answers: on the anchor, on the edited file, to the activation and to the
reload. -/
structure PfCalls where
  anchorOk : Bool
  confOk : Bool
  activated : Bool
  reloaded : Bool
  date : Bytes := []
  deriving DecidableEq

def Machine.loadPf (mac : Machine) : Machine :=
  { mac with pfLoaded := some (mac.pfConf.getD [], mac.pfAnchor) }

def Machine.stagedAnchor (mac : Machine) : Bytes :=
  renderPf (mac.setting "mac_ip" defaultMacIp) (mac.setting "win_ip" defaultWinIp)
    (mac.setting "listen_port" defaultListenPort)

def installAnchor (calls : PfCalls) : Command := fun shell =>
  if !calls.anchorOk then
    (some (die "generated PF anchor failed syntax validation — no firewall change was made"), shell)
  else (none, { shell with mac := { shell.mac with pfAnchor := some shell.mac.stagedAnchor } })

/-- The edit of `/etc/pf.conf`, left out when the file already loads the anchor. -/
def editPfConf (calls : PfCalls) : Command := fun shell =>
  match shell.mac.pfConf with
  | none => (some .failed, shell)
  | some text =>
      if loadsAnchor text then (none, { shell with backup := none })
      else if !calls.confOk then
        (some (die "PF configuration failed syntax validation — /etc/pf.conf was left untouched"),
          shell)
      else (none, { shell with
        mac := { shell.mac with pfConf := some (text ++ pfAddition) }
        backup := some text })

def activatePf (calls : PfCalls) : Command := fun shell =>
  if calls.activated then (none, { shell with mac := shell.mac.loadPf })
  else
    match shell.backup with
    | none => (some (die ("activating PF failed — /etc/pf.conf was not modified; " ++
        "Screen Sharing isolation is NOT active")), shell)
    | some text =>
        let mac := { shell.mac with pfConf := some text }
        (some (.died (utf8 "activating PF failed — /etc/pf.conf was restored from " ++
            utf8 "/usr/local/etc/scshr/pf-backups/pf.conf." ++ calls.date ++
            utf8 "; Screen Sharing isolation is NOT installed")),
          { shell with mac := if calls.reloaded then mac.loadPf else mac })

def installPf (calls : PfCalls) : List Command :=
  [installAnchor calls, editPfConf calls, activatePf calls]

def keptLine (line : Bytes) : Bool :=
  !Text.contains pfAnchorLine line && !Text.contains pfLoadLine line &&
    !Text.contains pfComment line

/-- `remove_pf`.  `grep -v` fails when it keeps no line, which ends the script. -/
def removePf (calls : PfCalls) : Command := fun shell =>
  let mac := shell.mac
  match mac.pfConf with
  | none => (none, { shell with mac := { mac with pfAnchor := none } })
  | some text =>
      if !loadsAnchor text then (none, { shell with mac := { mac with pfAnchor := none } })
      else
        let kept := (Text.lines newline text).filter keptLine
        if kept = [] then (some .failed, shell)
        else if calls.confOk then
          let mac := { mac with pfConf := some (Text.unlines newline kept) }
          let mac := if calls.reloaded then mac.loadPf else mac
          (none, { shell with mac := { mac with pfAnchor := none } })
        else (none, { shell with mac := { mac with pfAnchor := none } })

end Scshr.Mac
