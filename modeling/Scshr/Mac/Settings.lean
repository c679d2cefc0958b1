import Scshr.Mac.Checks
import Scshr.Mac.Commands

/-! Reading back what `save_settings` wrote. -/
namespace Scshr.Mac

open Common Lib Tunnel List

structure Single (value : Bytes) : Prop where
  line : newline ∉ value
  text : 0 ∉ value

section

variable {value default text : Bytes} {key : String} {front back : List Bytes}

theorem Single.substitution (h : Single value) : substitution value = value :=
  substitution_eq_self h.text fun hlast => h.line (mem_of_getLast? hlast)

theorem mem_substitution (h : c ∈ substitution text) : c ∈ text ∧ c ≠ 0 := by
  rw [Mac.substitution, mem_reverse] at h
  have hmem := mem_reverse.mp (dropWhile_subset _ h)
  simpa using mem_filter.mp hmem

theorem mem_of_stripPrefix (h : stripPrefix start text = some value) (hc : c ∈ value) :
    c ∈ text := by
  unfold stripPrefix at h
  split at h
  · cases h
    exact mem_of_mem_drop hc
  · cases h

theorem single_setting (file : Option Bytes) (key : String) (hdefault : Single default) :
    Single (setting file key default) := by
  unfold setting
  split
  · exact hdefault
  · case h_2 text =>
    dsimp only
    split
    · refine ⟨?_, fun hmem => (mem_substitution hmem).2 rfl⟩
      intro hmem
      have hvalue := (mem_substitution hmem).1
      cases hlast : ((Text.lines newline text).filterMap
          (stripPrefix (ascii key ++ [equalsSign]))).getLast? with
      | none =>
        rw [hlast] at hvalue
        cases hvalue
      | some value =>
        rw [hlast] at hvalue
        obtain ⟨line, hline, hstrip⟩ := mem_filterMap.mp (mem_of_getLast? hlast)
        exact Text.sep_notMem_of_mem_lines hline (mem_of_stripPrefix hstrip hvalue)
    · exact hdefault

theorem setting_of_lines
    (hlines : Text.lines newline text = front ++ (ascii key ++ [equalsSign] ++ value) :: back)
    (hback : ∀ line ∈ back, stripPrefix (ascii key ++ [equalsSign]) line = none)
    (hvalue : Single value) :
    setting (some text) key default = if value ≠ [] then value else default := by
  have hnone : back.filterMap (stripPrefix (ascii key ++ [equalsSign])) = [] :=
    filterMap_eq_nil_iff.mpr hback
  rw [setting]
  simp only [hlines, filterMap_append, filterMap_cons, stripPrefix_append, hnone,
    List.getLast?_concat, Option.getD_some, hvalue.substitution]

end

/-! ## The settings file -/

section

variable {port macIp winIp peerPub : Bytes} (hport : Single port) (hmac : Single macIp)
  (hwin : Single winIp) (hpeer : Single peerPub)

include hport hmac hwin hpeer

theorem lines_settingsText (endpoint : Bytes) :
    Text.lines newline (settingsText endpoint port macIp winIp peerPub) =
      Text.lines newline (ascii "endpoint=" ++ endpoint ++ [newline]) ++
        [ascii "listen_port=" ++ port, ascii "mac_ip=" ++ macIp, ascii "win_ip=" ++ winIp,
          ascii "peer_public_key=" ++ peerPub] := by
  have hlines : ∀ line ∈ [ascii "listen_port=" ++ port, ascii "mac_ip=" ++ macIp,
      ascii "win_ip=" ++ winIp, ascii "peer_public_key=" ++ peerPub], newline ∉ line := by
    simp only [forall_mem_cons, mem_append, not_or]
    exact ⟨⟨by decide, hport.line⟩, ⟨by decide, hmac.line⟩, ⟨by decide, hwin.line⟩,
      ⟨by decide, hpeer.line⟩, by simp⟩
  rw [settingsText, Text.unlines_cons, Text.lines_append_sep, Text.lines_unlines hlines]

variable (endpoint default : Bytes)

theorem setting_port :
    setting (some (settingsText endpoint port macIp winIp peerPub)) "listen_port" default =
      if port ≠ [] then port else default := by
  apply setting_of_lines (lines_settingsText hport hmac hwin hpeer endpoint) _ hport
  simp only [forall_mem_cons]
  exact ⟨rfl, rfl, rfl, by simp⟩

theorem setting_macIp :
    setting (some (settingsText endpoint port macIp winIp peerPub)) "mac_ip" default =
      if macIp ≠ [] then macIp else default := by
  have hlines := lines_settingsText hport hmac hwin hpeer endpoint
  rw [append_cons] at hlines
  apply setting_of_lines hlines _ hmac
  simp only [forall_mem_cons]
  exact ⟨rfl, rfl, by simp⟩

theorem setting_winIp :
    setting (some (settingsText endpoint port macIp winIp peerPub)) "win_ip" default =
      if winIp ≠ [] then winIp else default := by
  have hlines := lines_settingsText hport hmac hwin hpeer endpoint
  rw [append_cons, append_cons _ (_ ++ macIp)] at hlines
  apply setting_of_lines hlines _ hwin
  simp only [forall_mem_cons]
  exact ⟨rfl, by simp⟩

theorem setting_peerPub :
    setting (some (settingsText endpoint port macIp winIp peerPub)) "peer_public_key" default =
      if peerPub ≠ [] then peerPub else default := by
  have hlines := lines_settingsText hport hmac hwin hpeer endpoint
  rw [append_cons, append_cons _ (_ ++ macIp), append_cons _ (_ ++ winIp)] at hlines
  exact setting_of_lines hlines (by simp) hpeer

end

end Scshr.Mac
