import Scshr.Mac.State

/-! What the firewall edit and its removal leave in `/etc/pf.conf`: the lines that were
added go, the newline that was written in front of them stays. -/
namespace Scshr.Mac

open Common Lib Tunnel List

structure PfCalls.Accepting (calls : PfCalls) : Prop where
  anchorOk : calls.anchorOk
  confOk : calls.confOk
  activated : calls.activated
  reloaded : calls.reloaded

def Unmarked (text : Bytes) : Prop :=
  ∀ line ∈ Text.lines newline text, ∀ mark ∈ [pfComment, pfAnchorLine, pfLoadLine],
    Text.contains mark line = false

section

variable {text : Bytes}

theorem Unmarked.kept (h : Unmarked text) : ∀ line ∈ Text.lines newline text, keptLine line := by
  intro line hline
  have hmarks := h line hline
  simp only [forall_mem_cons] at hmarks
  simp [keptLine, hmarks]

theorem Unmarked.not_loadsAnchor (h : Unmarked text) : loadsAnchor text = false := by
  rw [loadsAnchor, grepQuiet, any_eq_false]
  intro line hline
  rw [h line hline pfLoadLine (by simp)]
  decide

/-! ## The edited file -/

theorem lines_edited (text : Bytes) :
    Text.lines newline (text ++ pfAddition) =
      Text.lines newline (text ++ [newline]) ++ [pfComment, pfAnchorLine, pfLoadLine] := by
  have hadded : ∀ line ∈ [pfComment, pfAnchorLine, pfLoadLine], newline ∉ line := by
    simp only [forall_mem_cons]
    exact ⟨notMem_ascii _ (by decide), notMem_ascii _ (by decide), notMem_ascii _ (by decide),
      by simp⟩
  rw [pfAddition, Text.unlines_cons, nil_append, Text.lines_append_sep,
    Text.lines_unlines hadded]

theorem loadsAnchor_edited (text : Bytes) : loadsAnchor (text ++ pfAddition) := by
  rw [loadsAnchor, grepQuiet, lines_edited, any_append, Bool.or_eq_true]
  right
  rw [any_eq_true]
  exact ⟨pfLoadLine, by simp, Text.contains_iff.mpr (infix_refl pfLoadLine)⟩

theorem Unmarked.filter_edited (h : Unmarked text) :
    (Text.lines newline (text ++ pfAddition)).filter keptLine =
      Text.lines newline (text ++ [newline]) := by
  have hself : ∀ mark : Bytes, Text.contains mark mark := fun mark =>
    Text.contains_iff.mpr (infix_refl mark)
  have hadded : [pfComment, pfAnchorLine, pfLoadLine].filter keptLine = [] := by
    simp [keptLine, hself]
  have hold : ∀ line ∈ Text.lines newline (text ++ [newline]), keptLine line := by
    intro line hline
    rcases Text.mem_lines_append_sep hline with hline | rfl
    · exact h.kept line hline
    · decide
  rw [lines_edited, filter_append, hadded, append_nil, filter_eq_self.mpr hold]

/-! ## Runs -/

variable {calls : PfCalls} {shell : Shell}

theorem installAnchor_accepting (hcalls : calls.Accepting) (shell : Shell) :
    ∃ next, installAnchor calls shell = (none, next) ∧ next.mac.pfConf = shell.mac.pfConf := by
  rw [installAnchor]
  simp only [hcalls.anchorOk]
  exact ⟨_, rfl, rfl⟩

theorem editPfConf_edits (hcalls : calls.Accepting) (hconf : shell.mac.pfConf = some text)
    (hnew : loadsAnchor text = false) :
    ∃ next, editPfConf calls shell = (none, next) ∧
      next.mac.pfConf = some (text ++ pfAddition) := by
  rw [editPfConf]
  simp only [hconf, hnew, hcalls.confOk]
  exact ⟨_, rfl, rfl⟩

theorem editPfConf_again (hconf : shell.mac.pfConf = some text) (hloads : loadsAnchor text) :
    ∃ next, editPfConf calls shell = (none, next) ∧ next.mac.pfConf = some text := by
  rw [editPfConf]
  simp only [hconf, hloads]
  exact ⟨_, rfl, hconf⟩

theorem activatePf_accepting (hcalls : calls.Accepting) :
    activatePf calls shell = (none, { shell with mac := shell.mac.loadPf }) := by
  rw [activatePf, if_pos hcalls.activated]

theorem installPf_accepting (hcalls : calls.Accepting)
    (hedit : ∀ next : Shell, next.mac.pfConf = shell.mac.pfConf →
      ∃ last, editPfConf calls next = (none, last) ∧ last.mac.pfConf = some edited) :
    ∃ next, Script.run (installPf calls) shell = (none, next) ∧
      next.mac.pfConf = some edited := by
  obtain ⟨staged, hanchor, hsame⟩ := installAnchor_accepting hcalls shell
  obtain ⟨last, hlast, hconf⟩ := hedit staged hsame
  refine ⟨{ last with mac := last.mac.loadPf }, ?_, hconf⟩
  rw [installPf, Script.run_cons_none hanchor, Script.run_cons_none hlast,
    Script.run_cons_none (activatePf_accepting hcalls), Script.run]

theorem installPf_edits (hcalls : calls.Accepting) (hconf : shell.mac.pfConf = some text)
    (hnew : loadsAnchor text = false) :
    ∃ next, Script.run (installPf calls) shell = (none, next) ∧
      next.mac.pfConf = some (text ++ pfAddition) :=
  installPf_accepting hcalls fun _ hsame => editPfConf_edits hcalls (hsame.trans hconf) hnew

theorem installPf_again (hcalls : calls.Accepting) (hconf : shell.mac.pfConf = some text)
    (hloads : loadsAnchor text) :
    ∃ next, Script.run (installPf calls) shell = (none, next) ∧ next.mac.pfConf = some text :=
  installPf_accepting hcalls fun _ hsame => editPfConf_again (hsame.trans hconf) hloads

theorem installs_again {installs : List PfCalls} (hcalls : ∀ calls ∈ installs, calls.Accepting)
    (hconf : shell.mac.pfConf = some text) (hloads : loadsAnchor text) :
    ∃ next, Script.run (installs.flatMap installPf) shell = (none, next) ∧
      next.mac.pfConf = some text := by
  induction installs generalizing shell with
  | nil => exact ⟨shell, rfl, hconf⟩
  | cons calls rest ih =>
    rw [forall_mem_cons] at hcalls
    obtain ⟨next, hrun, hnext⟩ := installPf_again hcalls.1 hconf hloads
    obtain ⟨last, hlast, hend⟩ := ih hcalls.2 hnext
    refine ⟨last, ?_, hend⟩
    rw [flatMap_cons, Script.run_append_none hrun, hlast]

theorem Unmarked.removePf_installs (h : Unmarked text) {installs : List PfCalls}
    (hcalls : ∀ calls ∈ installs, calls.Accepting) (hne : installs ≠ [])
    (hremoval : removal.Accepting) (hconf : shell.mac.pfConf = some text) :
    ∃ last, Script.run (installs.flatMap installPf ++ [removePf removal]) shell = (none, last) ∧
      last.mac.pfConf = some (text ++ [newline]) := by
  cases installs with
  | nil => exact absurd rfl hne
  | cons calls rest =>
    rw [forall_mem_cons] at hcalls
    obtain ⟨next, hfirst, hnext⟩ := installPf_edits hcalls.1 hconf h.not_loadsAnchor
    obtain ⟨last, hrest, hlast⟩ := installs_again hcalls.2 hnext (loadsAnchor_edited text)
    have hremove : ∃ final, removePf removal last = (none, final) ∧
        final.mac.pfConf = some (text ++ [newline]) := by
      rw [removePf]
      simp only [hlast, loadsAnchor_edited, h.filter_edited,
        if_neg (Text.lines_append_sep_ne_nil text), hremoval.confOk, hremoval.reloaded,
        Text.unlines_lines_append_sep]
      exact ⟨_, rfl, rfl⟩
    obtain ⟨final, hfinal, hend⟩ := hremove
    refine ⟨final, ?_, hend⟩
    rw [flatMap_cons, append_assoc, Script.run_append_none hfirst,
      Script.run_append_none hrest, Script.run_cons_none hfinal, Script.run]

end

/-- Removing the firewall restores `/etc/pf.conf` exactly when it was never installed. -/
theorem pfConf_restored_iff (mac : Machine) (content : Bytes) (installs : List PfCalls)
    (removal : PfCalls) (hconf : mac.pfConf = some content) (hcontent : Unmarked content)
    (hcalls : ∀ calls ∈ installs, calls.Accepting) (hremoval : removal.Accepting) :
    (Script.run (installs.flatMap installPf ++ [removePf removal]) { mac := mac }).2.mac.pfConf =
      some content ↔ installs.length = 0 := by
  cases installs with
  | nil =>
    have hremove : (removePf removal { mac := mac }).2.mac.pfConf = some content := by
      rw [removePf]
      simp only [hconf, hcontent.not_loadsAnchor]
      rfl
    have hrun : removePf removal { mac := mac } = (none, (removePf removal { mac := mac }).2) := by
      rw [removePf]
      simp only [hconf, hcontent.not_loadsAnchor]
      rfl
    rw [flatMap_nil, nil_append, Script.run_cons_none hrun, Script.run]
    exact ⟨fun _ => rfl, fun _ => hremove⟩
  | cons calls rest =>
    have hshell : ({ mac := mac } : Shell).mac.pfConf = some content := hconf
    obtain ⟨last, hrun, hlast⟩ := hcontent.removePf_installs hcalls (by simp) hremoval hshell
    rw [hrun]
    constructor
    · intro hsame
      rw [hlast, Option.some_inj] at hsame
      exact absurd hsame (by simp)
    · intro hlength
      cases hlength

def acceptingCalls : PfCalls where
  anchorOk := true
  confOk := true
  activated := true
  reloaded := true

theorem acceptingCalls_accepting : acceptingCalls.Accepting := ⟨rfl, rfl, rfl, rfl⟩

def stockMac : Machine where
  settings := none
  conf := none
  privateKey := none
  publicKey := none
  pfConf := some (ascii "set skip on lo0\n")
  pfAnchor := none
  pfLoaded := none
  plist := false
  daemon := none

theorem stockMac_unmarked : Unmarked (ascii "set skip on lo0\n") := by
  rw [Unmarked, show ascii "set skip on lo0\n" = _ from ascii_ofList _,
    show pfComment = _ from ascii_ofList _, show pfAnchorLine = _ from ascii_ofList _,
    show pfLoadLine = _ from ascii_ofList _]
  decide

theorem pfConf_restored_iff_stockMac :
    (Script.run [removePf acceptingCalls] { mac := stockMac }).2.mac.pfConf =
      some (ascii "set skip on lo0\n") :=
  (pfConf_restored_iff stockMac (ascii "set skip on lo0\n") [] acceptingCalls rfl
    stockMac_unmarked (by simp) acceptingCalls_accepting).mpr rfl

/-- One installation and its removal add an empty line. -/
theorem pfConf_grows :
    stockMac.pfConf = some (ascii "set skip on lo0\n") ∧
      (Script.run (installPf acceptingCalls ++ [removePf acceptingCalls])
        { mac := stockMac }).2.mac.pfConf = some (ascii "set skip on lo0\n\n") := by
  have hcalls : ∀ calls ∈ [acceptingCalls], calls.Accepting := by
    simpa using acceptingCalls_accepting
  have hconf : ({ mac := stockMac } : Shell).mac.pfConf = some (ascii "set skip on lo0\n") := rfl
  obtain ⟨last, hrun, hlast⟩ := stockMac_unmarked.removePf_installs hcalls (by simp)
    acceptingCalls_accepting hconf
  rw [flatMap_singleton] at hrun
  rw [hrun, hlast]
  exact ⟨hconf, by decide⟩

end Scshr.Mac
