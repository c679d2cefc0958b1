import Scshr.App.InitStages
import Scshr.Mac.ConfRender
import Scshr.Mac.PfRestore
import Scshr.Mac.RejectedPair

/-! What a failed setup leaves on the Mac, whether scshr was installed there before or not.
Only failures behind a completed `init` are rolled back, and the rollback removes what was
installed before as well. -/
namespace Scshr.App

open Common Lib Tunnel Mac List

/-! ## The rules -/

section Rules

variable {text : Bytes} (left right : Option Bytes)

theorem pfRules_anchor_iff :
    pfRules text left = pfRules text right ↔ (loadsAnchor text → left = right) := by
  cases hloads : loadsAnchor text with
  | false => simp [pfRules, hloads]
  | true => simp [pfRules, hloads]

theorem unmarked_newline (h : Unmarked text) : Unmarked (text ++ [newline]) := by
  intro line hline
  rcases Text.mem_lines_append_sep hline with hline | rfl
  · exact h line hline
  · decide +kernel

theorem pfRules_newline (h : Unmarked text) :
    pfRules (text ++ [newline]) left = pfRules text right := by
  rw [pfRules, pfRules, Text.filter_lines_append_sep, (unmarked_newline h).not_loadsAnchor,
    h.not_loadsAnchor]
  rfl

theorem loadsAnchor_editedPf (text : Bytes) : loadsAnchor (editedPf text) := by
  unfold editedPf
  split_ifs with hloads
  · exact hloads
  · exact loadsAnchor_edited text

theorem pfRules_addition_ne (h : ¬loadsAnchor text) :
    pfRules (text ++ pfAddition) left ≠ pfRules text right := by
  intro hsame
  have hmem : pfLoadLine ∈ (pfRules (text ++ pfAddition) left).1 := by
    rw [pfRules, lines_edited, mem_filter, mem_append]
    exact ⟨.inr (by simp), by decide⟩
  rw [hsame, pfRules, mem_filter] at hmem
  apply h
  rw [loadsAnchor, grepQuiet, any_eq_true]
  exact ⟨pfLoadLine, hmem.1, Text.contains_iff.mpr (infix_refl pfLoadLine)⟩

theorem pfRules_editedPf_iff :
    pfRules (editedPf text) left = pfRules text right ↔ loadsAnchor text ∧ left = right := by
  by_cases hloads : loadsAnchor text
  · simp [editedPf, hloads, pfRules_anchor_iff]
  · simp [editedPf, hloads, pfRules_addition_ne left right hloads]

/-- The lines that stay when what `install_pf` leaves is removed. -/
def keptLines (text : Bytes) : List Bytes :=
  (Text.lines newline (editedPf text)).filter keptLine

theorem pfRules_keptLines_iff :
    pfRules (Text.unlines newline (keptLines text)) left = pfRules text right ↔
      Unmarked text := by
  constructor
  · intro hsame line hline mark hmark
    have hkept : ∀ line ∈ keptLines text, newline ∉ line := by
      intro line hline
      exact Text.sep_notMem_of_mem_lines (mem_filter.mp hline).1
    have hrules : (keptLines text).filter (· ≠ []) =
        (Text.lines newline text).filter (· ≠ []) := by
      have hfirst := congrArg Prod.fst hsame
      rwa [pfRules, pfRules, Text.lines_unlines hkept] at hfirst
    by_cases hnil : line = []
    · subst hnil
      revert mark
      decide +kernel
    · have hmem : line ∈ (keptLines text).filter (· ≠ []) := by
        rw [hrules, mem_filter]
        exact ⟨hline, by simpa using hnil⟩
      have hline := (mem_filter.mp (mem_filter.mp hmem).1).2
      simp only [keptLine, Bool.and_eq_true, Bool.not_eq_true'] at hline
      simp only [mem_cons, not_mem_nil, or_false] at hmark
      rcases hmark with rfl | rfl | rfl
      · exact hline.2
      · exact hline.1.1
      · exact hline.1.2
  · intro h
    have hedited : editedPf text = text ++ pfAddition := by
      rw [editedPf, if_neg (by simp [h.not_loadsAnchor])]
    rw [keptLines, hedited, h.filter_edited, Text.unlines_lines_append_sep]
    exact pfRules_newline left right h

end Rules

/-! ## A failed `init` -/

namespace SetupRun

variable (run : SetupRun)

def loadedBefore : Option (List Bytes × Option Bytes) := (visible run.mac).loadedRules

/-- What the first `n` commands of `init` write was there before. -/
structure Unchanged (n : Nat) : Prop where
  settings : 3 ≤ n → run.mac.settings = run.saved.settings
  conf : 4 ≤ n → run.mac.conf = some run.saved.staged
  anchor : 5 ≤ n → loadsAnchor run.pfBefore → run.mac.pfAnchor = some run.saved.stagedAnchor
  pfConf : 6 ≤ n → loadsAnchor run.pfBefore
  loaded : 7 ≤ n →
    run.loadedBefore = some (pfRules (editedPf run.pfBefore) (some run.saved.stagedAnchor))
  plist : 9 ≤ n → run.mac.plist
  stopped : n = 10 → run.mac.daemon = none
  daemon : 11 ≤ n → run.mac.daemon = some run.saved.staged

/-- What `init` leaves when the command behind `n` completed ones fails was there before.  A
failed activation puts `/etc/pf.conf` back, and the daemon is stopped before its port is found
to be held. -/
def UnchangedFailing : Nat → Prop
  | 6 => run.Unchanged 5 ∧ (¬loadsAnchor run.pfBefore → run.initCalls.pf.reloaded →
      run.loadedBefore = some (pfRules run.pfBefore none))
  | 9 => run.Unchanged 10
  | n => run.Unchanged n

variable {run}

theorem configured_stage_iff (hconf : 5 ≤ n → run.mac.pfConf = some run.pfBefore) :
    (visible (run.stage n).mac).configuredRules = (visible run.mac).configuredRules ↔
      (5 ≤ n → loadsAnchor run.pfBefore → run.mac.pfAnchor = some run.saved.stagedAnchor) ∧
        (6 ≤ n → loadsAnchor run.pfBefore) := by
  by_cases hanchor : 5 ≤ n
  · by_cases hedit : 6 ≤ n
    · simp only [visible, stage, hconf hanchor, hanchor, hedit, if_true, Option.map_some,
        Option.some_inj, pfRules_editedPf_iff, true_imp_iff]
      constructor
      · rintro ⟨hloads, hsame⟩
        exact ⟨fun _ => hsame.symm, hloads⟩
      · rintro ⟨hsame, hloads⟩
        exact ⟨hloads, (hsame hloads).symm⟩
    · simp only [visible, stage, hconf hanchor, hanchor, hedit, if_true, if_false,
        Option.map_some, Option.some_inj, pfRules_anchor_iff, true_imp_iff, false_imp_iff, and_true,
        eq_comm]
  · have hedit : ¬6 ≤ n := by omega
    simp [visible, stage, hanchor, hedit]

theorem loaded_stage_iff :
    (visible (run.stage n).mac).loadedRules = (visible run.mac).loadedRules ↔
      (7 ≤ n → run.loadedBefore =
        some (pfRules (editedPf run.pfBefore) (some run.saved.stagedAnchor))) := by
  by_cases hloaded : 7 ≤ n
  · simp only [visible, stage, hloaded, loadedBefore, if_true, Option.map_some, true_imp_iff]
    exact eq_comm
  · simp [visible, stage, hloaded]

theorem daemon_stage_iff :
    (run.stage n).mac.daemon = run.mac.daemon ↔
      (n = 10 → run.mac.daemon = none) ∧ (11 ≤ n → run.mac.daemon = some run.saved.staged) := by
  simp only [stage]
  split_ifs with hstarted hstopped
  · have hn : n ≠ 10 := by omega
    simp [hstarted, hn, eq_comm]
  · have hn : n = 10 := by omega
    simp [hn, eq_comm]
  · have hn : n ≠ 10 := by omega
    simp [hstarted, hn]

theorem visible_stage_iff (hconf : 5 ≤ n → run.mac.pfConf = some run.pfBefore) :
    visible (run.stage n).mac = visible run.mac ↔ run.Unchanged n := by
  have hparts : visible (run.stage n).mac = visible run.mac ↔
      (run.stage n).mac.settings = run.mac.settings ∧ (run.stage n).mac.conf = run.mac.conf ∧
        (visible (run.stage n).mac).configuredRules = (visible run.mac).configuredRules ∧
        (visible (run.stage n).mac).loadedRules = (visible run.mac).loadedRules ∧
        (run.stage n).mac.plist = run.mac.plist ∧ (run.stage n).mac.daemon = run.mac.daemon := by
    simp only [visible, Visible.mk.injEq]
  rw [hparts, configured_stage_iff hconf, loaded_stage_iff, daemon_stage_iff]
  simp only [stage, ite_eq_right_iff]
  constructor
  · rintro ⟨hsettings, hwritten, ⟨hanchor, hedit⟩, hloaded, hplist, hstopped, hdaemon⟩
    exact ⟨fun hn => (hsettings hn).symm, fun hn => (hwritten hn).symm, hanchor, hedit, hloaded,
      fun hn => (hplist hn).symm, hstopped, hdaemon⟩
  · intro h
    exact ⟨fun hn => (h.settings hn).symm, fun hn => (h.conf hn).symm, ⟨h.anchor, h.pfConf⟩,
      h.loaded, fun hn => (h.plist hn).symm, h.stopped, h.daemon⟩

theorem visible_putBack (hconf : run.mac.pfConf = some run.pfBefore) :
    visible (run.initCalls.pf.putBack (run.stage 6)).mac =
      { visible (run.stage 5).mac with
        loadedRules := if ¬loadsAnchor run.pfBefore ∧ run.initCalls.pf.reloaded then
          some (pfRules run.pfBefore none) else run.loadedBefore } := by
  by_cases hloads : loadsAnchor run.pfBefore
  · -- nothing was edited
    simp [PfCalls.putBack, visible, stage, loadedBefore, editedPf, hloads, hconf]
  · have hrules : pfRules run.pfBefore (some run.saved.stagedAnchor) =
        pfRules run.pfBefore none := (pfRules_anchor_iff _ _).mpr fun h => absurd h hloads
    cases hreloaded : run.initCalls.pf.reloaded with
    | false => simp [PfCalls.putBack, visible, stage, loadedBefore, hloads, hreloaded, hconf]
    | true =>
      simp [PfCalls.putBack, visible, stage, Machine.loadPf, hloads, hreloaded, hconf, hrules]

theorem visible_putBack_iff (hconf : run.mac.pfConf = some run.pfBefore) :
    visible (run.initCalls.pf.putBack (run.stage 6)).mac = visible run.mac ↔
      run.UnchangedFailing 6 := by
  rw [visible_putBack hconf, UnchangedFailing, ← visible_stage_iff fun _ => hconf]
  constructor
  · intro h
    refine ⟨?_, fun hnew hreloaded => ?_⟩
    · exact congrArg (fun seen : Visible => { seen with loadedRules := run.loadedBefore }) h
    · have hloaded := congrArg Visible.loadedRules h
      rw [if_pos ⟨hnew, hreloaded⟩] at hloaded
      exact hloaded.symm
  · rintro ⟨h, hloaded⟩
    have hsame : (if ¬loadsAnchor run.pfBefore ∧ run.initCalls.pf.reloaded then
        some (pfRules run.pfBefore none) else run.loadedBefore) = run.loadedBefore :=
      ite_eq_right_iff.mpr fun hput => (hloaded hput.1 hput.2).symm
    rw [h, hsame]
    rfl

theorem visible_broken_iff (hconf : 5 ≤ n → run.mac.pfConf = some run.pfBefore) :
    visible (run.broken n).mac = visible run.mac ↔ run.UnchangedFailing n := by
  unfold broken
  split
  · exact visible_putBack_iff (hconf (by decide))
  · exact visible_stage_iff (n := 10) fun _ => hconf (by decide)
  · next hput hheld =>
    have hplain : run.UnchangedFailing n = run.Unchanged n := by
      unfold UnchangedFailing
      split
      · exact absurd rfl hput
      · exact absurd rfl hheld
      · rfl
    rw [hplain, visible_stage_iff hconf]

/-! ## The pairing -/

variable (run) in
/-- The firewall and the LaunchDaemon as a completed `init` leaves them. -/
structure Installed (shell : Shell) : Prop where
  pfConf : shell.mac.pfConf = some (editedPf run.pfBefore)
  pfAnchor : shell.mac.pfAnchor = some run.saved.stagedAnchor
  pfLoaded : shell.mac.pfLoaded = some (editedPf run.pfBefore, some run.saved.stagedAnchor)
  plist : shell.mac.plist
  backup : shell.backup = none
  anchor : shell.mac.stagedAnchor = run.saved.stagedAnchor

theorem installed_completed : run.Installed { mac := (run.stage 13).mac } :=
  ⟨rfl, rfl, rfl, rfl, rfl, rfl⟩

variable {shell before after : Shell} {mac : Machine}

theorem Installed.of_mac (h : run.Installed shell) : run.Installed { mac := shell.mac } :=
  ⟨h.pfConf, h.pfAnchor, h.pfLoaded, h.plist, rfl, h.anchor⟩

theorem Installed.of_quiet (h : run.Installed before) (hquiet : Quiet before after) :
    run.Installed after := by
  have hanchor : after.mac.stagedAnchor = before.mac.stagedAnchor := by
    simp only [Machine.stagedAnchor, Machine.setting, hquiet.settings]
  exact ⟨hquiet.pfConf.trans h.pfConf, hquiet.pfAnchor.trans h.pfAnchor,
    hquiet.pfLoaded.trans h.pfLoaded, hquiet.plist.trans h.plist, hquiet.backup.trans h.backup,
    hanchor.trans h.anchor⟩

theorem Installed.savePair (h : run.Installed shell) (hpub : Single shell.winPub)
    (hip : shell.winIp = shell.mac.setting "win_ip" defaultWinIp) :
    run.Installed (savePair shell).2 := by
  have hsame := sameSettings_pair shell.mac hpub hip
  have hanchor : (Mac.savePair shell).2.mac.stagedAnchor = shell.mac.stagedAnchor := by
    rw [Machine.stagedAnchor, Machine.stagedAnchor, ← hsame.macIp, ← hsame.winIp, ← hsame.port]
    rfl
  exact ⟨h.pfConf, h.pfAnchor, h.pfLoaded, h.plist, h.backup, hanchor.trans h.anchor⟩

theorem Installed.installPf {calls : PfCalls} (h : run.Installed shell)
    (hcommand : command ∈ installPf calls) : run.Installed (command shell).2 := by
  simp only [Mac.installPf, mem_cons, not_mem_nil, or_false] at hcommand
  rcases hcommand with rfl | rfl | rfl
  · unfold installAnchor
    split_ifs
    · exact h
    · exact ⟨h.pfConf, congrArg some h.anchor, h.pfLoaded, h.plist, h.backup, h.anchor⟩
  · -- the file already loads the anchor
    have hedit : editPfConf calls shell = (none, { shell with backup := none }) := by
      simp only [editPfConf, h.pfConf, loadsAnchor_editedPf, if_true]
    rw [hedit]
    exact ⟨h.pfConf, h.pfAnchor, h.pfLoaded, h.plist, rfl, h.anchor⟩
  · by_cases hactivated : calls.activated
    · have hloaded : shell.mac.loadPf.pfLoaded =
          some (editedPf run.pfBefore, some run.saved.stagedAnchor) := by
        rw [Machine.loadPf, h.pfConf, h.pfAnchor]
        rfl
      rw [activatePf, if_pos hactivated]
      exact ⟨h.pfConf, h.pfAnchor, hloaded, h.plist, h.backup, h.anchor⟩
    · rw [activatePf, if_neg hactivated, h.backup]
      exact h

section Pair

variable (lowerRunes : Bytes → Bytes) (base64Decode : Bytes → Option Bytes) (code : Bytes)
  (calls : PairCalls)

def pairChecks : List Mac.Command :=
  [checkPair code, decodeClient base64Decode code, checkAddress]

def pairChanges : List Mac.Command :=
  [writeConf lowerRunes, ifWritten (daemonUnload calls.daemon), ifWritten daemonLoad,
    ifWritten (waitUp calls.daemon
      "the tunnel did not come back up within 30s — see /var/log/scshr-tunnel.log")] ++
    installPf calls.pf

theorem cmdPair_eq : cmdPair lowerRunes base64Decode code calls =
    pairChecks base64Decode code ++ savePair :: pairChanges lowerRunes calls := rfl

variable {lowerRunes} {base64Decode} {code} {calls}

theorem Installed.pairChecks (h : run.Installed shell)
    (hcommand : command ∈ pairChecks base64Decode code) : run.Installed (command shell).2 := by
  simp only [SetupRun.pairChecks, mem_cons, not_mem_nil, or_false] at hcommand
  rcases hcommand with rfl | rfl | rfl
  · unfold checkPair
    split_ifs <;> exact h
  · unfold Mac.decodeClient
    split
    · exact h
    · exact ⟨h.pfConf, h.pfAnchor, h.pfLoaded, h.plist, h.backup, h.anchor⟩
  · unfold checkAddress
    dsimp only
    split_ifs <;> exact h

theorem Installed.pairChanges (h : run.Installed shell)
    (hcommand : command ∈ pairChanges lowerRunes calls) : run.Installed (command shell).2 := by
  rw [SetupRun.pairChanges, mem_append] at hcommand
  rcases hcommand with hcommand | hcommand
  · simp only [mem_cons, not_mem_nil, or_false] at hcommand
    rcases hcommand with rfl | rfl | rfl | rfl
    · exact h.of_quiet (quiet_writeConf lowerRunes shell)
    · exact h.of_quiet (quiet_ifWritten (quiet_daemonUnload calls.daemon) shell)
    · exact h.of_quiet (quiet_ifWritten quiet_daemonLoad shell)
    · exact h.of_quiet (quiet_ifWritten (quiet_waitUp calls.daemon _) shell)
  · exact h.installPf hcommand

theorem of_run_pairChecks {last : Shell}
    (h : Script.run (pairChecks base64Decode code) { mac := mac } = (none, last)) :
    Single last.winPub ∧ last.winIp = last.mac.setting "win_ip" defaultWinIp := by
  have hfirst : checkPair code { mac := mac } = (none, { mac := mac }) := by
    have hok : (Script.run (SetupRun.pairChecks base64Decode code) { mac := mac }).1 = none := by
      rw [h]
    rw [SetupRun.pairChecks, Script.run_cons_ok_iff] at hok
    apply Prod.ext hok.1
    unfold checkPair
    split_ifs <;> rfl
  rw [SetupRun.pairChecks, Script.run_cons_none hfirst] at h
  cases hdecode : decodeClientCode base64Decode mac.settings code with
  | error text =>
    rw [Script.run_cons_some (decodeClient_error hdecode)] at h
    cases h
  | ok peer =>
    let decoded : Shell := { mac := mac, winPub := peer.1, winIp := peer.2 }
    rw [Script.run_cons_none (decodeClient_ok hdecode)] at h
    by_cases hip : peer.2 = mac.setting "win_ip" defaultWinIp
    · have haddress : checkAddress decoded = (none, decoded) := if_neg (not_not.mpr hip)
      rw [Script.run_cons_none haddress, Script.run] at h
      have hlast : decoded = last := (Prod.mk.inj h).2
      rw [← hlast]
      exact ⟨(single_of_decodeClientCode hdecode).1, hip⟩
    · have haddress : checkAddress decoded = (some _, decoded) := if_pos hip
      rw [Script.run_cons_some haddress] at h
      cases h

theorem Installed.run_cmdPair (h : run.Installed { mac := mac }) (done : Nat) :
    run.Installed
      (Script.run ((cmdPair lowerRunes base64Decode code calls).take done) { mac := mac }).2 := by
  have hlength : (SetupRun.pairChecks base64Decode code).length = 3 := rfl
  rw [cmdPair_eq, take_append, hlength]
  by_cases hdone : done ≤ 3
  · rw [Nat.sub_eq_zero_of_le hdone, take_zero, append_nil]
    exact Script.run_invariant
      (fun _ hcommand _ hshell => hshell.pairChecks (mem_of_mem_take hcommand)) h
  · obtain ⟨more, hmore⟩ : ∃ more, done - 3 = more + 1 := ⟨done - 4, by omega⟩
    have hchecked : run.Installed
        (Script.run (SetupRun.pairChecks base64Decode code) { mac := mac }).2 :=
      Script.run_invariant (fun _ hcommand _ hshell => hshell.pairChecks hcommand) h
    rw [take_of_length_le (by omega), hmore, take_succ_cons]
    cases hchecks : Script.run (SetupRun.pairChecks base64Decode code) { mac := mac } with
    | mk result last =>
      rw [hchecks] at hchecked
      cases result with
      | some error =>
        rw [Script.run_append_some _ hchecks]
        exact hchecked
      | none =>
        -- the address is the stored one, so the rules that are rendered anew are the same
        obtain ⟨hpub, hip⟩ := of_run_pairChecks hchecks
        rw [Script.run_append_none hchecks, Script.run_cons_ok rfl]
        exact Script.run_invariant
          (fun _ hcommand _ hshell => hshell.pairChanges (mem_of_mem_take hcommand))
          (hchecked.savePair hpub hip)

theorem Installed.runHelper_cmdPair (h : run.Installed { mac := mac }) (cut : Option Nat) :
    run.Installed
      { mac := (runHelper (cmdPair lowerRunes base64Decode code calls) cut mac).2 } := by
  cases cut with
  | none =>
    have hall : run.Installed (Script.run ((cmdPair lowerRunes base64Decode code calls).take
        (cmdPair lowerRunes base64Decode code calls).length) { mac := mac }).2 :=
      h.run_cmdPair _
    rw [take_length] at hall
    exact hall.of_mac
  | some done => exact (h.run_cmdPair done).of_mac

end Pair

/-! ## The rollback -/

variable (run) in
/-- `uninstall` is cut off, finds the port held, or keeps no line of `/etc/pf.conf`. -/
def RollbackReports : Prop :=
  run.uninstallCut ≠ none ∨ run.uninstallCalls.holder ≠ none ∨ keptLines run.pfBefore = []

variable (run) in
/-- The Mac looked before as `uninstall` leaves it. -/
structure LooksUninstalled : Prop where
  settings : run.mac.settings = none
  conf : run.mac.conf = none
  plist : run.mac.plist = false
  daemon : run.mac.daemon = none
  pfConf : if run.uninstallCalls.pf.confOk then Unmarked run.pfBefore
    else loadsAnchor run.pfBefore ∧ run.mac.pfAnchor = none
  loaded : run.loadedBefore = some
    (if run.uninstallCalls.pf.confOk ∧ run.uninstallCalls.pf.reloaded then
      pfRules run.pfBefore none
    else pfRules (editedPf run.pfBefore) (some run.saved.stagedAnchor))

variable {calls : PfCalls}

theorem removeLaunchd_held {calls : UninstallCalls} {holder : PortHolder} (hplist : shell.mac.plist)
    (hholder : calls.holder = some holder) : ∃ error last,
      removeLaunchd calls shell = (some error, last) := by
  obtain ⟨error, herror⟩ := (answers_daemonUnload shell ⟨calls.holder, false, []⟩).stops
    (by simp [hholder])
  rw [removeLaunchd, if_pos hplist, Script.run_cons_some herror]
  exact ⟨error, _, rfl⟩

theorem removeLaunchd_free {calls : UninstallCalls} (hplist : shell.mac.plist)
    (hholder : calls.holder = none) :
    removeLaunchd calls shell =
      (none, { shell with mac := { shell.mac with daemon := none, plist := false } }) := by
  have hunload := (answers_daemonUnload shell ⟨calls.holder, false, []⟩).next hholder
  rw [removeLaunchd, if_pos hplist, Script.run_cons_none hunload]
  rfl

theorem removePf_emptied (hconf : shell.mac.pfConf = some (editedPf text))
    (hkept : keptLines text = []) : removePf calls shell = (some .failed, shell) := by
  rw [keptLines] at hkept
  simp only [removePf, hconf, loadsAnchor_editedPf, hkept, Bool.not_true, if_true]
  rfl

theorem removePf_installed (hconf : shell.mac.pfConf = some (editedPf text))
    (hkept : keptLines text ≠ []) :
    removePf calls shell = (none, { shell with mac := { shell.mac with
      pfConf := some (if calls.confOk then Text.unlines newline (keptLines text)
        else editedPf text)
      pfLoaded := if calls.confOk ∧ calls.reloaded then
        some (Text.unlines newline (keptLines text), shell.mac.pfAnchor) else shell.mac.pfLoaded
      pfAnchor := none } }) := by
  rw [keptLines] at hkept ⊢
  rw [removePf]
  simp only [hconf, loadsAnchor_editedPf, if_neg hkept]
  cases hok : calls.confOk with
  | false => simp [← hconf]
  | true =>
    cases hreloaded : calls.reloaded with
    | false => simp
    | true => simp [Machine.loadPf]

def uninstalled (calls : PfCalls) (text : Bytes) (mac : Machine) : Machine :=
  { mac with
    settings := none
    conf := none
    plist := false
    daemon := none
    pfConf := some (if calls.confOk then Text.unlines newline (keptLines text) else editedPf text)
    pfLoaded := if calls.confOk ∧ calls.reloaded then
      some (Text.unlines newline (keptLines text), mac.pfAnchor) else mac.pfLoaded
    pfAnchor := none }

variable (calls mac) in
theorem configured_uninstalled_iff (hconf : run.mac.pfConf = some run.pfBefore) :
    (visible (uninstalled calls run.pfBefore mac)).configuredRules =
        (visible run.mac).configuredRules ↔
      if calls.confOk then Unmarked run.pfBefore
      else loadsAnchor run.pfBefore ∧ run.mac.pfAnchor = none := by
  simp only [visible, uninstalled, hconf, Option.map_some, Option.some_inj]
  split_ifs with hok
  · exact pfRules_keptLines_iff none run.mac.pfAnchor
  · rw [pfRules_editedPf_iff, eq_comm (a := none)]

theorem loaded_uninstalled (h : run.Installed { mac := mac })
    (hunmarked : calls.confOk → Unmarked run.pfBefore) :
    (visible (uninstalled calls run.pfBefore mac)).loadedRules =
      some (if calls.confOk ∧ calls.reloaded then pfRules run.pfBefore none
        else pfRules (editedPf run.pfBefore) (some run.saved.stagedAnchor)) := by
  have hloaded : mac.pfLoaded = _ := h.pfLoaded
  simp only [visible, uninstalled]
  split_ifs with hreloaded
  · rw [Option.map_some, (pfRules_keptLines_iff _ none).mpr (hunmarked hreloaded.1)]
  · rw [hloaded, Option.map_some]

theorem visible_uninstalled_iff (hconf : run.mac.pfConf = some run.pfBefore)
    (h : run.Installed { mac := mac }) :
    visible (uninstalled run.uninstallCalls.pf run.pfBefore mac) = visible run.mac ↔
      run.LooksUninstalled := by
  have hconfigured := configured_uninstalled_iff mac run.uninstallCalls.pf hconf
  have hunmarked (hsame : if run.uninstallCalls.pf.confOk then Unmarked run.pfBefore
      else loadsAnchor run.pfBefore ∧ run.mac.pfAnchor = none)
      (hok : run.uninstallCalls.pf.confOk) : Unmarked run.pfBefore := by
    rwa [if_pos hok] at hsame
  constructor
  · intro hsame
    have hrules := hconfigured.mp (congrArg Visible.configuredRules hsame)
    have hloaded := loaded_uninstalled h (hunmarked hrules)
    rw [hsame] at hloaded
    exact ⟨(congrArg Visible.settings hsame).symm, (congrArg Visible.conf hsame).symm,
      (congrArg Visible.plist hsame).symm, (congrArg Visible.daemon hsame).symm, hrules, hloaded⟩
  · intro hbefore
    have hrules := hconfigured.mpr hbefore.pfConf
    have hloaded := (loaded_uninstalled h (hunmarked hbefore.pfConf)).trans hbefore.loaded.symm
    let left := visible (uninstalled run.uninstallCalls.pf run.pfBefore mac)
    calc left
        = ⟨none, none, left.configuredRules, left.loadedRules, false, none⟩ := rfl
      _ = ⟨run.mac.settings, run.mac.conf, (visible run.mac).configuredRules, run.loadedBefore,
            run.mac.plist, run.mac.daemon⟩ := by
          rw [hrules, hloaded, hbefore.settings, hbefore.conf, hbefore.plist, hbefore.daemon]
      _ = visible run.mac := rfl

theorem rollbackMac_reports (h : run.Installed { mac := mac }) (hreports : run.RollbackReports) :
    (rollbackMac run mac).rollback = some .notPutBack := by
  cases hcut : run.uninstallCut with
  | some done =>
    rw [rollbackMac, hcut, runHelper_some]
    rfl
  | none =>
    have hfails : ∃ error last, Script.run (cmdUninstall false run.uninstallCalls) { mac := mac } =
        (some error, last) := by
      cases hholder : run.uninstallCalls.holder with
      | some holder =>
        obtain ⟨error, last, hheld⟩ := removeLaunchd_held h.plist hholder
        exact ⟨error, last, Script.run_cons_some hheld⟩
      | none =>
        have hkept : keptLines run.pfBefore = [] := by
          simpa [RollbackReports, hcut, hholder] using hreports
        refine ⟨.failed, { mac := { mac with daemon := none, plist := false } }, ?_⟩
        rw [cmdUninstall, Script.run_cons_none (removeLaunchd_free h.plist hholder)]
        exact Script.run_cons_some (removePf_emptied h.pfConf hkept)
    obtain ⟨error, last, hrun⟩ := hfails
    rw [rollbackMac, hcut, runHelper_none, hrun]
    rfl

/-- Whatever was installed before, nothing is left of it, and the Mac is said to be returned
to how it was. -/
theorem rollbackMac_returned (h : run.Installed { mac := mac }) (hquiet : ¬run.RollbackReports) :
    rollbackMac run mac =
      ⟨uninstalled run.uninstallCalls.pf run.pfBefore mac, some .returned⟩ := by
  simp only [RollbackReports, not_or, not_not] at hquiet
  obtain ⟨hcut, hholder, hkept⟩ := hquiet
  have hrun : Script.run (cmdUninstall false run.uninstallCalls) { mac := mac } =
      (none, { mac := uninstalled run.uninstallCalls.pf run.pfBefore mac }) := by
    have hremove : removePf run.uninstallCalls.pf
        { mac := { mac with daemon := none, plist := false } } = (none, _) :=
      removePf_installed h.pfConf hkept
    rw [cmdUninstall, Script.run_cons_none (removeLaunchd_free h.plist hholder),
      Script.run_cons_none hremove]
    rfl
  rw [rollbackMac, hcut, runHelper_none, hrun]
  rfl

theorem rollbackMac_honest_iff (hconf : run.mac.pfConf = some run.pfBefore)
    (h : run.Installed { mac := mac }) :
    (rollbackMac run mac).Honest run.mac ↔ run.RollbackReports ∨ run.LooksUninstalled := by
  by_cases hreports : run.RollbackReports
  · exact iff_of_true (.inr (rollbackMac_reports h hreports)) (.inl hreports)
  · rw [rollbackMac_returned h hreports, SetupOutcome.Honest, visible_uninstalled_iff hconf h]
    simp [hreports]

/-! ## A failed run -/

variable {lowerRunes : Bytes → Bytes} {base64Decode : Bytes → Option Bytes}

variable (run) (lowerRunes) in
/-- `init` is cut off or fails, and what it leaves was there before. -/
def InitUnnoticed : Prop :=
  ∃ n, run.CutBehind lowerRunes n ∧ run.Unchanged n ∨
    run.FailsAt lowerRunes n ∧ run.UnchangedFailing n

theorem pfConf_of_answered (h : run.Answered lowerRunes 0) :
    run.mac.pfConf = some run.pfBefore := by
  obtain ⟨text, htext⟩ := Option.ne_none_iff_exists'.mp h.1
  rw [pfBefore, htext]
  rfl

theorem exists_rollback (hearly : ¬run.stoppedEarly)
    (hdone : run.Completes lowerRunes)
    (failed : runSetup lowerRunes base64Decode run = some outcome) :
    ∃ last, run.Installed { mac := last } ∧ outcome = rollbackMac run last := by
  rw [runSetup, if_neg hearly, hdone.runHelper_eq] at failed
  dsimp only at failed
  rw [Bool.not_true, if_neg Bool.false_ne_true] at failed
  by_cases hbetween : run.stoppedBetween
  · rw [if_pos hbetween, Option.some_inj] at failed
    exact ⟨_, installed_completed, failed.symm⟩
  · rw [if_neg hbetween] at failed
    have hkept : run.Installed { mac := (runHelper (cmdPair lowerRunes base64Decode run.clientCode
        run.pairCalls) run.pairCut (run.stage 13).mac).2 } :=
      installed_completed.runHelper_cmdPair run.pairCut
    cases hpair : runHelper (cmdPair lowerRunes base64Decode run.clientCode run.pairCalls)
        run.pairCut (run.stage 13).mac with
    | mk paired last =>
      rw [hpair] at failed hkept
      dsimp only at failed
      split_ifs at failed
      exact ⟨last, hkept, (Option.some_inj.mp failed).symm⟩

theorem honest_iff_of_init_failed (hearly : ¬run.stoppedEarly)
    (hinit : runHelper (cmdInit lowerRunes run.args run.initCalls) run.initCut run.mac =
      (false, mac)) (failed : runSetup lowerRunes base64Decode run = some outcome) :
    outcome.Honest run.mac ↔ visible mac = visible run.mac := by
  rw [runSetup, if_neg hearly, hinit] at failed
  cases failed
  simp [SetupOutcome.Honest]

end SetupRun

/-- A failed setup leaves the Mac as it was or says that it could not be put back exactly if
it stops in front of `init`, if what an unfinished `init` leaves was there before, or if
`init` is completed and the rollback fails visibly or nothing was installed before. -/
theorem setup_honest_iff (lowerRunes : Bytes → Bytes) (base64Decode : Bytes → Option Bytes)
    (run : SetupRun) (outcome : SetupOutcome)
    (failed : runSetup lowerRunes base64Decode run = some outcome) :
    outcome.Honest run.mac ↔
      run.stoppedEarly ∨ run.InitUnnoticed lowerRunes ∨
        run.Completes lowerRunes ∧ (run.RollbackReports ∨ run.LooksUninstalled) := by
  by_cases hearly : run.stoppedEarly
  · rw [runSetup, if_pos hearly] at failed
    cases failed
    exact iff_of_true (.inl rfl) (.inl hearly)
  have hcut (n : Nat) (h : run.CutBehind lowerRunes n) :
      outcome.Honest run.mac ↔ run.Unchanged n := by
    rw [SetupRun.honest_iff_of_init_failed hearly h.runHelper_eq failed]
    exact SetupRun.visible_stage_iff fun hn =>
      SetupRun.pfConf_of_answered (h.2 0 (by omega))
  have hfails (n : Nat) (h : run.FailsAt lowerRunes n) :
      outcome.Honest run.mac ↔ run.UnchangedFailing n := by
    rw [SetupRun.honest_iff_of_init_failed hearly h.runHelper_eq failed]
    exact SetupRun.visible_broken_iff fun hn =>
      SetupRun.pfConf_of_answered (h.2.1 0 (by omega))
  have hdone (h : run.Completes lowerRunes) :
      outcome.Honest run.mac ↔ run.RollbackReports ∨ run.LooksUninstalled := by
    obtain ⟨last, hlast, rfl⟩ := SetupRun.exists_rollback hearly h failed
    exact SetupRun.rollbackMac_honest_iff (SetupRun.pfConf_of_answered (h.2 0)) hlast
  constructor
  · intro honest
    rcases run.init_ends lowerRunes with ⟨n, h⟩ | ⟨n, h⟩ | h
    · exact .inr (.inl ⟨n, .inl ⟨h, (hcut n h).mp honest⟩⟩)
    · exact .inr (.inl ⟨n, .inr ⟨h, (hfails n h).mp honest⟩⟩)
    · exact .inr (.inr ⟨h, (hdone h).mp honest⟩)
  · rintro (hstopped | ⟨n, ⟨h, hsame⟩ | ⟨h, hsame⟩⟩ | ⟨h, hsame⟩)
    · exact absurd hstopped hearly
    · exact (hcut n h).mpr hsame
    · exact (hfails n h).mpr hsame
    · exact (hdone h).mpr hsame

def cancelledRun : SetupRun where
  mac := { stockMac with pfLoaded := some (ascii "set skip on lo0\n", none) }
  stoppedEarly := false
  args := { endpoint := ascii "203.0.113.7" }
  initCalls := ⟨⟨zeroKey, zeroKey⟩, acceptingCalls, none, ⟨none, true, []⟩⟩
  initCut := none
  stoppedBetween := true
  clientCode := []
  pairCalls := ⟨⟨none, true, []⟩, acceptingCalls⟩
  pairCut := none
  uninstallCalls := ⟨none, acceptingCalls⟩
  uninstallCut := none

theorem cancelledRun_completes : cancelledRun.Completes id := by
  have hvalid : cancelledRun.args.Valid := by
    constructor <;> decide +kernel
  have hstaged : cancelledRun.saved.staged =
      renderConf zeroKey (hostSpelling 1) (Decimal.write 51820) none := by decide +kernel
  have hconf : parseConf id cancelledRun.saved.staged =
      .ok (renderedConf zeroKey 1 51820 none) := by
    rw [hstaged]
    exact parseConf_renderConf_none ⟨replicate 32 0, by simp, rfl⟩ (by decide) (by decide)
  refine ⟨rfl, fun n => ?_⟩
  unfold SetupRun.Answered
  split
  · exact ⟨Option.some_ne_none _, hvalid⟩
  · exact ⟨rfl, rfl⟩
  · exact ⟨_, hconf⟩
  · rfl
  · exact ⟨_, rfl, .inr rfl⟩
  · rfl
  · rfl
  · rfl
  · exact ⟨rfl, .inl rfl⟩
  · exact ⟨by decide +kernel, hvalid⟩
  · trivial

theorem cancelledRun_looksUninstalled : cancelledRun.LooksUninstalled :=
  ⟨rfl, rfl, rfl, rfl, stockMac_unmarked, rfl⟩

theorem setup_honest_cancelled :
    ∃ outcome, runSetup id standardDecode cancelledRun = some outcome ∧
      outcome.Honest cancelledRun.mac := by
  have hfailed : runSetup id standardDecode cancelledRun =
      some (rollbackMac cancelledRun (cancelledRun.stage 13).mac) := by
    rw [runSetup, cancelledRun_completes.runHelper_eq]
    rfl
  exact ⟨_, hfailed, (setup_honest_iff id standardDecode cancelledRun _ hfailed).mpr
    (.inr (.inr ⟨cancelledRun_completes, .inr cancelledRun_looksUninstalled⟩))⟩

def downRun : SetupRun :=
  { cancelledRun with
    initCalls := { cancelledRun.initCalls with daemon := ⟨none, false, []⟩ } }

/-- `init` fails behind the firewall: the Mac keeps it, and the user is not told. -/
theorem failed_init_not_undone :
    (runSetup id standardDecode downRun).any fun outcome =>
      outcome.rollback = none && outcome.mac.settings ≠ none &&
        outcome.mac.pfLoaded.any fun loaded => loadsAnchor loaded.1 && loaded.2 ≠ none := by
  decide +kernel

end Scshr.App
