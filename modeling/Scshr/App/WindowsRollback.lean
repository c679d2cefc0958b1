import Scshr.App.WindowsInstall

/-! What a failed installation leaves behind.  The rollback stops or deletes a
service that was not running before and restores the file, but it never starts a
service again: one that was running is left stopped, or running with the new
configuration, once the installation has begun to restart it. -/
namespace Scshr.App

open Common Lib

inductive InitialService where
  | absent
  | stopped
  | running
  deriving DecidableEq, Repr

def InitialService.windows (initial : InitialService) (command : String) (conf : Option Bytes) :
    Windows :=
  match initial with
  | .absent => ⟨.absent, "", conf⟩
  | .stopped => ⟨.stopped, command, conf⟩
  | .running => ⟨.running conf, command, conf⟩

def Restored (before after : Windows) : Prop :=
  after.service = before.service ∧ after.conf = before.conf

/-- The file was emptied or rewritten, and the call that did it threw. -/
def HalfWritten (calls : Calls) (rendered : Bytes) (conf : Option Bytes) : Prop :=
  conf ≠ some rendered ∧ calls.secureDir = true ∧ calls.createConf = true ∧
    match calls.writeCut with
    | some written => conf ≠ some (rendered.take written)
    | none => calls.hardenConf = false

def ReachesRestart (calls : Calls) (rendered : Bytes) (conf : Option Bytes) : Prop :=
  calls.secureDir = true ∧
    (conf = some rendered ∨
      calls.createConf = true ∧ calls.writeCut = none ∧ calls.hardenConf = true) ∧
    calls.openManager = true ∧ calls.changeConfig = true ∧ calls.sidType = true

/-- A running service is restarted for a new configuration, or for a new binary with which
it does not come up. -/
def LeftRestarted (calls : Calls) (initial : InitialService) (rendered : Bytes)
    (cmd command : String) (conf : Option Bytes) : Prop :=
  initial = .running ∧ ReachesRestart calls rendered conf ∧
    (conf ≠ some rendered ∨ command ≠ cmd ∧ calls.start ≠ .runs)

section

variable {calls : Calls} {rendered : Bytes} {windows : Windows} {install : Install} {error : String}

theorem writeConfIfChanged_throws
    (h : writeConfIfChanged calls rendered ⟨windows, false, false⟩ = (some error, install)) :
    install.changed = false ∧ install.windows.service = windows.service ∧
      (install.windows.conf = windows.conf ↔ ¬ HalfWritten calls rendered windows.conf) ∧
      ¬ ReachesRestart calls rendered windows.conf := by
  unfold HalfWritten ReachesRestart
  unfold writeConfIfChanged ensureSecureDir writeSecureFile at h
  cases hdir : calls.secureDir
  · simp only [hdir, Bool.false_eq_true, if_false, Prod.mk.injEq] at h
    obtain ⟨-, rfl⟩ := h
    simp
  · by_cases hconf : windows.conf = some rendered
    · simp [hdir, hconf] at h
    · cases hcreate : calls.createConf
      · simp only [hdir, hconf, hcreate, if_true, if_false, Bool.not_false, Prod.mk.injEq] at h
        obtain ⟨-, rfl⟩ := h
        simp [hconf]
      · cases hcut : calls.writeCut with
        | some written =>
          simp only [hdir, hconf, hcreate, hcut, if_true, if_false, Bool.not_true,
            Bool.false_eq_true, Prod.mk.injEq] at h
          obtain ⟨-, rfl⟩ := h
          simp only [hconf, ne_eq, not_false_eq_true, true_and, and_false, false_and, not_not,
            reduceCtorEq, or_self]
          exact ⟨eq_comm, trivial⟩
        | none =>
          cases hharden : calls.hardenConf
          · simp only [hdir, hconf, hcreate, hcut, hharden, if_true, if_false, Bool.not_true,
              Bool.false_eq_true, Prod.mk.injEq] at h
            obtain ⟨-, rfl⟩ := h
            simp [hconf, Ne.symm hconf]
          · simp [hdir, hconf, hcreate, hcut, hharden] at h

theorem writeConfIfChanged_returns
    (h : writeConfIfChanged calls rendered ⟨windows, false, false⟩ = (none, install)) :
    install = ⟨{ windows with conf := some rendered }, windows.conf ≠ some rendered, false⟩ ∧
      ¬ HalfWritten calls rendered windows.conf ∧ calls.secureDir = true ∧
      (windows.conf = some rendered ∨
        calls.createConf = true ∧ calls.writeCut = none ∧ calls.hardenConf = true) := by
  unfold HalfWritten
  unfold writeConfIfChanged ensureSecureDir writeSecureFile at h
  cases hdir : calls.secureDir
  · simp [hdir] at h
  · by_cases hconf : windows.conf = some rendered
    · simp only [hdir, hconf, if_true, Prod.mk.injEq, true_and] at h
      obtain ⟨service, command, conf⟩ := windows
      subst h hconf
      simp
    · cases hcreate : calls.createConf
      · simp [hdir, hconf, hcreate] at h
      · cases hcut : calls.writeCut with
        | some written => simp [hdir, hconf, hcreate, hcut] at h
        | none =>
          cases hharden : calls.hardenConf
          · simp [hdir, hconf, hcreate, hcut, hharden] at h
          · simp only [hdir, hconf, hcreate, hcut, hharden, if_true, if_false, Bool.not_true,
              Bool.false_eq_true, Prod.mk.injEq, true_and] at h
            subst h
            simp [hconf]

end

def restartCommands (calls : Calls) (cmd : String) (before : Service) :
    List (Script.Command Install String) :=
  [installService calls cmd, stopIfChanged before, startIfNeeded calls, auditRoutes calls]

structure SameConf (before after : Install) : Prop where
  changed : after.changed = before.changed
  conf : after.windows.conf = before.windows.conf
  exists_ : before.windows.service ≠ .absent → after.windows.service ≠ .absent

theorem SameConf.trans (h : SameConf first second) (hnext : SameConf second third) :
    SameConf first third :=
  ⟨hnext.changed.trans h.changed, hnext.conf.trans h.conf, fun hfirst =>
    hnext.exists_ (h.exists_ hfirst)⟩

theorem sameConf_installService (calls : Calls) (cmd : String) (install : Install) :
    SameConf install (installService calls cmd install).2 := by
  unfold installService
  dsimp only
  split
  · exact ⟨rfl, rfl, id⟩
  · split
    · split
      · exact ⟨rfl, rfl, id⟩
      · split <;> exact ⟨rfl, rfl, id⟩
    · split
      · exact ⟨rfl, rfl, id⟩
      · split <;> exact ⟨rfl, rfl, fun _ => nofun⟩

theorem sameConf_stopIfChanged (before : Service) (install : Install) :
    SameConf install (stopIfChanged before install).2 := by
  unfold stopIfChanged stopService
  dsimp only
  split
  · split
    · exact ⟨rfl, rfl, id⟩
    · exact ⟨rfl, rfl, fun _ => nofun⟩
  · exact ⟨rfl, rfl, id⟩

theorem sameConf_startIfNeeded (calls : Calls) (install : Install) :
    SameConf install (startIfNeeded calls install).2 := by
  unfold startIfNeeded startService
  split
  · exact ⟨rfl, rfl, id⟩
  · cases calls.start with
    | notOpened => exact ⟨rfl, rfl, id⟩
    | refused => exact ⟨rfl, rfl, id⟩
    | hangs => exact ⟨rfl, rfl, fun _ => nofun⟩
    | runs => exact ⟨rfl, rfl, fun _ => nofun⟩

theorem sameConf_restart (calls : Calls) (cmd : String) (before : Service) (install : Install) :
    SameConf install (Script.run (restartCommands calls cmd before) install).2 := by
  apply Script.run_invariant (P := SameConf install) _ ⟨rfl, rfl, id⟩
  intro command hcommand state hstate
  simp only [restartCommands, List.mem_cons, List.not_mem_nil, or_false] at hcommand
  rcases hcommand with rfl | rfl | rfl | rfl
  · exact hstate.trans (sameConf_installService calls cmd state)
  · exact hstate.trans (sameConf_stopIfChanged before state)
  · exact hstate.trans (sameConf_startIfNeeded calls state)
  · exact hstate.trans ⟨rfl, rfl, id⟩

section

variable {calls : Calls} {rendered : Bytes} {cmd command : String} {conf : Option Bytes}
  {error : String}

theorem installService_existing (h : install.windows.service ≠ .absent) :
    if calls.openManager = true ∧ calls.changeConfig = true ∧ calls.sidType = true then
      installService calls cmd install = (none, { install with
        windows := { install.windows with command := cmd }
        binaryChanged := install.windows.command ≠ cmd })
    else
      ∃ error last, installService calls cmd install = (some error, last) ∧
        last.windows.service = install.windows.service := by
  unfold installService
  cases calls.openManager
  · exact ⟨_, _, rfl, rfl⟩
  · cases calls.changeConfig
    · simp only [h, ne_eq, not_false_eq_true, if_true, Bool.not_true, Bool.not_false,
        Bool.false_eq_true, if_false, false_and, and_false]
      exact ⟨_, _, rfl, rfl⟩
    · cases calls.sidType
      · simp only [h, ne_eq, not_false_eq_true, if_true, Bool.not_true, Bool.not_false,
          Bool.false_eq_true, if_false, and_false]
        exact ⟨_, _, rfl, rfl⟩
      · simp [h]

theorem run_auditRoutes (install : Install) :
    (Script.run [auditRoutes calls] install).2 = install := by
  unfold Script.run auditRoutes
  split
  · rename_i heq
    rw [(Prod.mk.inj heq).2]
    rfl
  · rename_i heq
    exact (Prod.mk.inj heq).2.symm

def startedService (calls : Calls) (conf : Option Bytes) : Service :=
  match calls.start with
  | .notOpened | .refused => .stopped
  | .hangs => .startPending
  | .runs => .running conf

theorem service_restart (loaded : Option Bytes) (changed binaryChanged : Bool) :
    (Script.run [stopIfChanged (.running loaded), startIfNeeded calls, auditRoutes calls]
      ⟨⟨.running loaded, command, conf⟩, changed, binaryChanged⟩).2.windows.service =
        if changed || binaryChanged then startedService calls conf else .running loaded := by
  have hstop : stopIfChanged (.running loaded)
      ⟨⟨.running loaded, command, conf⟩, changed, binaryChanged⟩ =
        (none, ⟨⟨if changed || binaryChanged then .stopped else .running loaded, command, conf⟩,
          changed, binaryChanged⟩) := by
    cases changed <;> cases binaryChanged <;> rfl
  rw [Script.run_cons_none hstop]
  cases changed || binaryChanged
  · have hrunning : startIfNeeded calls
        ⟨⟨.running loaded, command, conf⟩, changed, binaryChanged⟩ =
          (none, ⟨⟨.running loaded, command, conf⟩, changed, binaryChanged⟩) := rfl
    have hkeep := @run_auditRoutes calls
      ⟨⟨.running loaded, command, conf⟩, changed, binaryChanged⟩
    rw [← Script.run_cons_none hrunning] at hkeep
    exact congrArg (fun install : Install => install.windows.service) hkeep
  · unfold startedService
    have hstart : ∀ install : Install, install.windows.service = .stopped →
        startIfNeeded calls install = ((startService calls install.windows).1,
          { install with windows := (startService calls install.windows).2 }) := by
      intro install hservice
      rw [startIfNeeded, hservice]
      rfl
    cases hcall : calls.start with
    | runs =>
      rw [Script.run_cons_none (by rw [hstart _ rfl, startService, hcall]), run_auditRoutes]
      rfl
    | notOpened => rw [Script.run_cons_some (by rw [hstart _ rfl, startService, hcall])]
    | refused => rw [Script.run_cons_some (by rw [hstart _ rfl, startService, hcall])]
    | hangs =>
      rw [Script.run_cons_some (by rw [hstart _ rfl, startService, hcall])]
      rfl

theorem restart_running
    (h : Script.run (restartCommands calls cmd (.running conf))
      ⟨⟨.running conf, command, some rendered⟩, conf ≠ some rendered, false⟩ =
        (some error, install)) :
    install.windows.service = .running conf ↔
      ¬ ((calls.openManager = true ∧ calls.changeConfig = true ∧ calls.sidType = true) ∧
        (conf ≠ some rendered ∨ command ≠ cmd ∧ calls.start ≠ .runs)) := by
  have hexisting := @installService_existing calls cmd
    ⟨⟨.running conf, command, some rendered⟩, conf ≠ some rendered, false⟩ nofun
  unfold restartCommands at h
  split at hexisting
  · rename_i hpasses
    rw [Script.run_cons_none hexisting] at h
    have hservice := @service_restart calls cmd (some rendered) conf (conf ≠ some rendered)
      (command ≠ cmd)
    dsimp only at h
    rw [h] at hservice
    rw [hservice, startedService]
    by_cases hconf : conf = some rendered
    · by_cases hcommand : command = cmd
      · simp [hconf, hcommand]
      · cases calls.start <;> simp [hconf, hcommand, hpasses]
    · cases calls.start <;> simp [hconf, hpasses, Ne.symm hconf]
  · rename_i hfails
    obtain ⟨error, last, hthrows, hservice⟩ := hexisting
    rw [Script.run_cons_some hthrows, Prod.mk.injEq] at h
    obtain ⟨-, rfl⟩ := h
    simp only [hservice, hfails, false_and, not_false_eq_true]

theorem conf_rollBack (hchanged : install.changed = decide (initial.conf ≠ some rendered))
    (hconf : install.windows.conf = some rendered) :
    (rollBack initial install).conf = initial.conf := by
  unfold rollBack restoreConf deleteService stopService
  by_cases hsame : initial.conf = some rendered
  · simp only [hchanged, hsame, ne_eq, not_true_eq_false, decide_false, Bool.false_eq_true,
      if_false]
    split
    · split <;> exact hconf
    · split
      · split <;> exact hconf
      · exact hconf
  · simp only [hchanged, hsame, ne_eq, not_false_eq_true, decide_true, if_true]

theorem service_rollBack (initial : Windows) (install : Install) :
    (rollBack initial install).service =
      if initial.service = .absent then .absent
      else if initial.service.isRunning then install.windows.service
      else if install.windows.service = .absent then .absent else .stopped := by
  have hkeep : ∀ windows : Windows, (if install.changed then restoreConf initial.conf windows
      else windows).service = windows.service := by
    intro windows
    split <;> rfl
  unfold rollBack
  dsimp only
  rw [hkeep]
  cases hservice : initial.service with
  | absent => rfl
  | running loaded => rfl
  | stopped =>
    simp only [reduceCtorEq, if_false, Service.isRunning, Bool.not_false, if_true,
      Bool.false_eq_true, stopService]
    split
    · assumption
    · rfl
  | startPending =>
    simp only [reduceCtorEq, if_false, Service.isRunning, Bool.not_false, if_true,
      Bool.false_eq_true, stopService]
    split
    · assumption
    · rfl

end

/-- A failed installation leaves the machine as it was exactly when the file was not caught
half-written and no running service had been restarted. -/
theorem failed_install_restored_iff (calls : Calls) (rendered : Bytes) (cmd : String)
    (initial : InitialService) (command : String) (conf : Option Bytes) (error : String)
    (hthrow : (installWindowsTunnel calls rendered cmd (initial.windows command conf)).1 =
      some error) :
    Restored (initial.windows command conf)
        (installWindowsTunnel calls rendered cmd (initial.windows command conf)).2 ↔
      ¬ HalfWritten calls rendered conf ∧
        ¬ LeftRestarted calls initial rendered cmd command conf := by
  have hinitial : (initial.windows command conf).conf = conf := by cases initial <;> rfl
  have hcatch : ∃ install, tryInstall calls rendered cmd (initial.windows command conf) =
      (some error, install) ∧
      (installWindowsTunnel calls rendered cmd (initial.windows command conf)).2 =
        rollBack (initial.windows command conf) install := by
    unfold installWindowsTunnel at hthrow ⊢
    split at hthrow
    · cases hthrow
    · rename_i thrown install htry
      obtain rfl := Option.some.inj hthrow
      exact ⟨install, htry, rfl⟩
  obtain ⟨install, htry, hafter⟩ := hcatch
  rw [hafter, Restored]
  unfold tryInstall at htry
  cases hwrite : writeConfIfChanged calls rendered
      ⟨initial.windows command conf, false, false⟩ with
  | mk result written =>
    cases result with
    | some thrown =>
      rw [Script.run_cons_some hwrite, Prod.mk.injEq] at htry
      obtain ⟨-, rfl⟩ := htry
      obtain ⟨hchanged, hservice, hhalf, hearly⟩ := writeConfIfChanged_throws hwrite
      rw [hinitial] at hhalf hearly
      have hnot : ¬ LeftRestarted calls initial rendered cmd command conf :=
        fun hrestarted => hearly hrestarted.2.1
      have hfile : (rollBack (initial.windows command conf) written).conf =
          written.windows.conf := by
        unfold rollBack deleteService stopService
        rw [hchanged]
        simp only [Bool.false_eq_true, if_false]
        cases initial <;> simp [InitialService.windows, Service.isRunning] <;> split <;> rfl
      rw [service_rollBack, hservice, hfile, hinitial, hhalf]
      simp only [hnot, not_false_eq_true, and_true]
      cases initial <;> simp [InitialService.windows, Service.isRunning]
    | none =>
      obtain ⟨rfl, hhalf, hdir, hwritten⟩ := writeConfIfChanged_returns hwrite
      rw [Script.run_cons_none hwrite] at htry
      rw [hinitial] at hhalf hwritten
      have hsame := sameConf_restart calls cmd (initial.windows command conf).service
        ⟨{ initial.windows command conf with conf := some rendered },
          (initial.windows command conf).conf ≠ some rendered, false⟩
      unfold restartCommands at hsame
      rw [htry] at hsame
      have hfile := @conf_rollBack rendered (initial.windows command conf) install hsame.changed
        hsame.conf
      rw [hfile, service_rollBack]
      simp only [and_true, hhalf, not_false_eq_true, true_and]
      cases initial with
      | absent => simp [InitialService.windows, LeftRestarted]
      | stopped =>
        have hexists := hsame.exists_ nofun
        simp [InitialService.windows, LeftRestarted, Service.isRunning, hexists]
      | running =>
        have hservice := restart_running htry
        simp only [InitialService.windows, reduceCtorEq, if_false, Service.isRunning, if_true,
          hservice, LeftRestarted, ReachesRestart, hdir, hwritten, true_and]

def auditFails : Calls :=
  ⟨true, true, true, none, true, true, true, true, true, .runs, ["no route to 10.77.77.1"]⟩

theorem failed_install_restored_stopped :
    (installWindowsTunnel auditFails [1] "host" (InitialService.stopped.windows "host" none)).1 =
        some "tunnel route validation failed:\n  - no route to 10.77.77.1" ∧
      Restored (InitialService.stopped.windows "host" none)
        (installWindowsTunnel auditFails [1] "host"
          (InitialService.stopped.windows "host" none)).2 := by
  have hthrow : (installWindowsTunnel auditFails [1] "host"
      (InitialService.stopped.windows "host" none)).1 =
        some "tunnel route validation failed:\n  - no route to 10.77.77.1" := by decide
  refine ⟨hthrow, (failed_install_restored_iff auditFails [1] "host" .stopped "host" none _
    hthrow).mpr ⟨?_, ?_⟩⟩
  · rintro ⟨-, -, -, hharden⟩
    cases hharden
  · rintro ⟨hrunning, -⟩
    cases hrunning

def startFails : Calls :=
  ⟨true, true, true, none, true, true, true, true, true, .refused, []⟩

/-- A new configuration and a service that does not start again: the running service is
left stopped. -/
theorem running_service_left_stopped :
    installWindowsTunnel startFails [2] "host" (InitialService.running.windows "host" (some [1])) =
        (some "starting the scshr tunnel service failed", ⟨.stopped, "host", some [1]⟩) ∧
      ¬ Restored (InitialService.running.windows "host" (some [1]))
        ⟨.stopped, "host", some [1]⟩ := by
  refine ⟨by decide, ?_⟩
  rintro ⟨hservice, -⟩
  cases hservice

end Scshr.App
