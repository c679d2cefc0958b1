import Scshr.Common.Bytes
import Scshr.Lib.Script

/-! The try block of `install_windows_tunnel` (`app/tunnel_cli.cpp`) with the
service and file operations of `tunnel/win_tunnel.cpp` and the rollback behind it.
What the Windows calls answer is an input. -/
namespace Scshr.App

open Common Lib

/-- The service; a running one holds the configuration it was started with. -/
inductive Service where
  | absent
  | stopped
  | startPending
  | running (loaded : Option Bytes)
  deriving DecidableEq, Repr

def Service.isRunning : Service → Bool
  | .running _ => true
  | _ => false

structure Windows where
  service : Service
  command : String
  conf : Option Bytes
  deriving DecidableEq, Repr

inductive StartOutcome where
  | notOpened
  | refused
  | hangs
  | runs
  deriving DecidableEq, Repr

structure Calls where
  /-- The directory was created, or it was there. -/
  createDir : Bool
  /-- `harden` of a directory that was there; a new one needs none. -/
  hardenDir : Bool
  createConf : Bool
  /-- `WriteFile` failed behind so many bytes. -/
  writeCut : Option Nat
  hardenConf : Bool
  openManager : Bool
  changeConfig : Bool
  createService : Bool
  sidType : Bool
  start : StartOutcome
  /-- The problems `audit_routes` finds. -/
  problems : List String
  deriving DecidableEq, Repr

structure Install where
  windows : Windows
  changed : Bool
  binaryChanged : Bool
  deriving DecidableEq, Repr

def Calls.secureDir (calls : Calls) : Bool := calls.createDir && calls.hardenDir

def ensureSecureDir (calls : Calls) : Script.Command Install String := fun install =>
  (if calls.secureDir then none
    else some (if calls.createDir then "restricting permissions on %ProgramData%\\scshr failed"
      else "creating %ProgramData%\\scshr failed"),
    install)

/-- `write_secure_file` on the configuration: `CREATE_ALWAYS` empties the file first. -/
def writeSecureFile (calls : Calls) (data : Bytes) (windows : Windows) :
    Option String × Windows :=
  let failed := some "writing %ProgramData%\\scshr\\scshr.conf failed"
  if !calls.createConf then (failed, windows)
  else
    match calls.writeCut with
    | some written => (failed, { windows with conf := some (data.take written) })
    | none =>
        (if calls.hardenConf then none
          else some "restricting permissions on %ProgramData%\\scshr\\scshr.conf failed",
          { windows with conf := some data })

def writeConfIfChanged (calls : Calls) (rendered : Bytes) : Script.Command Install String :=
  fun install =>
    match ensureSecureDir calls install with
    | (some error, install) => (some error, install)
    | (none, install) =>
        if install.windows.conf = some rendered then (none, { install with changed := false })
        else
          match writeSecureFile calls rendered install.windows with
          | (some error, windows) => (some error, { install with windows := windows })
          | (none, windows) => (none, { install with windows := windows, changed := true })

def installService (calls : Calls) (cmd : String) : Script.Command Install String :=
  fun install =>
    let sidFailed := some "setting the service SID type failed"
    let windows := { install.windows with command := cmd }
    if !calls.openManager then (some "opening the service manager failed", install)
    else if install.windows.service ≠ .absent then
      if !calls.changeConfig then (some "reconfiguring the scshr tunnel service failed", install)
      else if !calls.sidType then (sidFailed, { install with windows := windows })
      else (none, { install with
        windows := windows
        binaryChanged := install.windows.command ≠ cmd })
    else if !calls.createService then (some "creating the scshr tunnel service failed", install)
    else if !calls.sidType then
      (sidFailed, { install with windows := { windows with service := .stopped } })
    else (none, { install with
      windows := { windows with service := .stopped }
      binaryChanged := true })

def stopService (windows : Windows) : Windows :=
  if windows.service = .absent then windows else { windows with service := .stopped }

def deleteService (windows : Windows) : Windows :=
  { windows with service := .absent, command := "" }

def startService (calls : Calls) (windows : Windows) : Option String × Windows :=
  match calls.start with
  | .notOpened => (some "opening the scshr tunnel service failed", windows)
  | .refused => (some "starting the scshr tunnel service failed", windows)
  | .hangs =>
      (some "the scshr tunnel service did not reach the running state within 10 s",
        { windows with service := .startPending })
  | .runs => (none, { windows with service := .running windows.conf })

def stopIfChanged (before : Service) : Script.Command Install String := fun install =>
  (none, if (install.changed || install.binaryChanged) && before.isRunning then
      { install with windows := stopService install.windows }
    else install)

def startIfNeeded (calls : Calls) : Script.Command Install String := fun install =>
  if install.windows.service.isRunning then (none, install)
  else
    match startService calls install.windows with
    | (error, windows) => (error, { install with windows := windows })

def auditRoutes (calls : Calls) : Script.Command Install String := fun install =>
  (if calls.problems = [] then none
    else some (calls.problems.foldl (fun msg problem => msg ++ "\n  - " ++ problem)
      "tunnel route validation failed:"), install)

def restoreConf (previous : Option Bytes) (windows : Windows) : Windows :=
  { windows with conf := previous }

def tryInstall (calls : Calls) (rendered : Bytes) (cmd : String) (windows : Windows) :
    Option String × Install :=
  Script.run [writeConfIfChanged calls rendered, installService calls cmd,
    stopIfChanged windows.service, startIfNeeded calls, auditRoutes calls] ⟨windows, false, false⟩

/-- The catch block, with stop, delete and restore succeeding. -/
def rollBack (initial : Windows) (install : Install) : Windows :=
  let windows :=
    if initial.service = .absent then deleteService (stopService install.windows)
    else if !initial.service.isRunning then stopService install.windows
    else install.windows
  if install.changed then restoreConf initial.conf windows else windows

def installWindowsTunnel (calls : Calls) (rendered : Bytes) (cmd : String) (windows : Windows) :
    Option String × Windows :=
  match tryInstall calls rendered cmd windows with
  | (none, install) => (none, install.windows)
  | (some error, install) => (some error, rollBack windows install)

end Scshr.App
