import Scshr.Mac.State

/-! The commands `init`, `pair` and `uninstall` of `tools/scshr-macos-tunnel.sh`, as root
and with the helper in its place.  Installed binaries and the audio agents are not part
of the modelled state. -/
namespace Scshr.Mac

open Common Lib Tunnel

/-! ## Identity -/

structure KeyPair where
  privateKey : Bytes
  publicKey : Bytes
  deriving DecidableEq

def nonEmptyFile (file : Option Bytes) : Bool := file.getD [] ≠ []

def ensureIdentity (generated : KeyPair) : Command := fun shell =>
  let mac := shell.mac
  if nonEmptyFile mac.privateKey && nonEmptyFile mac.publicKey then
    if isWgKey (substitution (mac.privateKey.getD [])) then (none, shell)
    else
      (some (die "stored private key is corrupt (uninstall --reset-identity to start over)"), shell)
  else if mac.privateKey ≠ none ∨ mac.publicKey ≠ none then
    (some (die "identity is half-written — run 'uninstall --reset-identity' first"), shell)
  else
    (none, { shell with mac := { mac with
      privateKey := some generated.privateKey
      publicKey := some generated.publicKey } })

/-! ## The daemon -/

structure PortHolder where
  comm : Bytes
  pid : Bytes
  wireGuard : Bool
  deriving DecidableEq

def PortHolder.text (holder : PortHolder) (port : Bytes) : Bytes :=
  if holder.wireGuard then
    utf8 "udp/" ++ port ++ utf8 " is held by another WireGuard tunnel (" ++ holder.comm ++
      utf8 ", pid " ++ holder.pid ++ utf8 ") — stop it or run init with --listen-port"
  else
    utf8 "udp/" ++ port ++ utf8 " is in use by " ++ holder.comm ++ utf8 " (pid " ++ holder.pid ++
      utf8 ") — stop it or run init with --listen-port"

structure DaemonCalls where
  holder : Option PortHolder
  up : Bool
  port : Bytes
  deriving DecidableEq

/-- The daemon is gone before `stop_stale_tunnels` looks for others on its port. -/
def daemonUnload (calls : DaemonCalls) : Command := fun shell =>
  let mac := { shell.mac with daemon := none }
  match calls.holder with
  | none => (none, { shell with mac := mac })
  | some holder =>
      (some (.died (holder.text (mac.setting "listen_port" defaultListenPort))),
        { shell with mac := mac })

def daemonLoad : Command := fun shell =>
  if !shell.mac.plist then
    (some (die "the scshr LaunchDaemon is not installed — run 'init' first"), shell)
  else (none, { shell with mac := { shell.mac with daemon := shell.mac.conf } })

def waitUp (calls : DaemonCalls) (failure : String) : Command := fun shell =>
  let want := shell.mac.setting "listen_port" defaultListenPort
  if !calls.up then (some (die failure), shell)
  else if calls.port ≠ [] ∧ calls.port ≠ want then
    (some (.died (utf8 "the tunnel came up on udp/" ++ calls.port ++ utf8 " instead of udp/" ++
      want ++ utf8 " — something else holds that port; see /var/log/scshr-tunnel.log")), shell)
  else (none, shell)

/-! ## Init -/

/-- The arguments of `init`; those that are not given are the defaults. -/
structure InitArgs where
  endpoint : Bytes
  port : Bytes := defaultListenPort
  macIp : Bytes := defaultMacIp
  winIp : Bytes := defaultWinIp
  deriving DecidableEq

structure InitCalls where
  generated : KeyPair
  pf : PfCalls
  noHelper : Option Bytes
  daemon : DaemonCalls
  deriving DecidableEq

def checkInit (args : InitArgs) : Command := fun shell =>
  if shell.mac.pfConf = none then
    (some (die "/etc/pf.conf not found — refusing to create one from scratch"), shell)
  else if args.endpoint = [] then
    (some (die ("--endpoint is required: the public hostname or IP at which this Mac's " ++
      "WireGuard port is reachable")), shell)
  else if !isEndpointHost args.endpoint then
    (some (.died (utf8 "invalid --endpoint: " ++ args.endpoint)), shell)
  else if !isPort args.port then
    (some (.died (utf8 "invalid --listen-port: " ++ args.port)), shell)
  else if !isTunnelIp args.macIp then
    (some (.died (utf8 "invalid --mac-ip (must be inside 10.77.77.0/24): " ++ args.macIp)), shell)
  else if !isTunnelIp args.winIp then
    (some (.died (utf8 "invalid --win-ip (must be inside 10.77.77.0/24): " ++ args.winIp)), shell)
  else if args.macIp = args.winIp then
    (some (die "--mac-ip and --win-ip must differ"), shell)
  else (none, shell)

def saveInit (args : InitArgs) : Command := fun shell =>
  saveSettings args.endpoint args.port args.macIp args.winIp
    (shell.mac.setting "peer_public_key" []) shell

def installHelper (calls : InitCalls) : Command := fun shell =>
  (calls.noHelper.map .died, shell)

def installLaunchd : Command := update fun mac => { mac with plist := true }

def printServerCode (args : InitArgs) : Command := fun shell =>
  match renderServerCode (substitution (shell.mac.publicKey.getD [])) args.endpoint args.port
    args.macIp args.winIp with
  | .ok _ => (none, shell)
  | .error text => (some (.died text), shell)

section

variable (lowerRunes : Bytes → Bytes)

def cmdInit (args : InitArgs) (calls : InitCalls) : List Command :=
  [checkInit args, ensureIdentity calls.generated, saveInit args, writeConf lowerRunes] ++
    installPf calls.pf ++
    [installHelper calls, installLaunchd, daemonUnload calls.daemon, daemonLoad,
      waitUp calls.daemon
        "the tunnel did not come up within 30s — see /var/log/scshr-tunnel.log",
      printServerCode args]

/-! ## Pair -/

structure PairCalls where
  daemon : DaemonCalls
  pf : PfCalls
  deriving DecidableEq

def checkPair (code : Bytes) : Command := fun shell =>
  if code = [] then (some (die "usage: pair 'SCCL1:<windows-code>'"), shell)
  else if !nonEmptyFile shell.mac.privateKey then
    (some (die "not initialised — run 'init' first"), shell)
  else (none, shell)

variable (base64Decode : Bytes → Option Bytes)

def decodeClient (code : Bytes) : Command := fun shell =>
  match decodeClientCode base64Decode shell.mac.settings code with
  | .error text => (some (.badCode text), shell)
  | .ok (winPub, winIp) => (none, { shell with winPub := winPub, winIp := winIp })

def checkAddress : Command := fun shell =>
  let stored := shell.mac.setting "win_ip" defaultWinIp
  if shell.winIp ≠ stored then
    (some (.wrongAddress (utf8 "the Windows peer claims " ++ shell.winIp ++
      utf8 " but this Mac was initialised for " ++ stored)), shell)
  else (none, shell)

def savePair : Command := fun shell =>
  saveSettings (shell.mac.setting "endpoint" []) (shell.mac.setting "listen_port" defaultListenPort)
    (shell.mac.setting "mac_ip" defaultMacIp) shell.winIp shell.winPub shell

def ifWritten (command : Command) : Command := fun shell =>
  if shell.written then command shell else (none, shell)

def cmdPair (code : Bytes) (calls : PairCalls) : List Command :=
  [checkPair code, decodeClient base64Decode code, checkAddress, savePair, writeConf lowerRunes,
    ifWritten (daemonUnload calls.daemon), ifWritten daemonLoad,
    ifWritten (waitUp calls.daemon
      "the tunnel did not come back up within 30s — see /var/log/scshr-tunnel.log")] ++
    installPf calls.pf

end

/-! ## Uninstall -/

structure UninstallCalls where
  holder : Option PortHolder
  pf : PfCalls
  deriving DecidableEq

def removeLaunchd (calls : UninstallCalls) : Command := fun shell =>
  if shell.mac.plist then
    Script.run [daemonUnload ⟨calls.holder, false, []⟩,
      update fun mac => { mac with plist := false }] shell
  else (none, shell)

def removeFiles (reset : Bool) : Command := update fun mac =>
  { mac with
    conf := none
    settings := none
    privateKey := if reset then none else mac.privateKey
    publicKey := if reset then none else mac.publicKey }

def cmdUninstall (reset : Bool) (calls : UninstallCalls) : List Command :=
  [removeLaunchd calls, removePf calls.pf, removeFiles reset]

end Scshr.Mac
