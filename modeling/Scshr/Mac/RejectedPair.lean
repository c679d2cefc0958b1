import Scshr.Mac.ConfRender
import Scshr.Mac.PairingAgreement
import Scshr.Mac.Settings

/-! What a rejected `pair` leaves behind.  `cmd_pair` saves the settings before
`write_conf` has the helper check the configuration made from them. -/
namespace Scshr.Mac

open Common Lib Tunnel List

/-- The command ended in `decode_client_code`, in the address check or in the validation
of the configuration. -/
def Exit.rejects : Exit → Bool
  | .badCode _ | .wrongAddress _ | .validation _ => true
  | .died _ | .failed => false

/-! ## What the code says -/

section

variable {base64Decode : Bytes → Option Bytes} {settings : Option Bytes} {code pub ip : Bytes}

theorem single_sedField (index : Nat) (key : String) (h : 0 ∉ body) :
    Single (sedField index key body) := by
  have hempty : Single [] := ⟨by simp, by simp⟩
  unfold sedField
  cases hline : (Text.lines newline body)[index]? with
  | none => exact hempty
  | some line =>
    have hmem := mem_of_getElem? hline
    rw [Option.bind_some]
    cases hvalue : stripPrefix (ascii key ++ [equalsSign]) line with
    | none => exact hempty
    | some value =>
      exact ⟨fun hc => Text.sep_notMem_of_mem_lines hmem (mem_of_stripPrefix hvalue hc),
        fun hc => h (Text.mem_of_mem_lines hmem (mem_of_stripPrefix hvalue hc))⟩

theorem single_of_decodeClientCode
    (h : decodeClientCode base64Decode settings code = .ok (pub, ip)) : Single pub ∧ pub ≠ [] := by
  unfold decodeClientCode at h
  split at h
  · cases h
  · simp only [dieUnless_bind_ok] at h
    obtain ⟨-, -, -, h⟩ := h
    split at h
    · cases h
    · case h_2 output houtput =>
      simp only [dieUnless_bind_ok, decide_eq_true_iff, Except.ok.injEq, Prod.mk.injEq] at h
      obtain ⟨-, hne, -, -, -, -, rfl, -⟩ := h
      exact ⟨single_sedField 0 "k" fun hmem => (mem_substitution hmem).2 rfl, hne⟩

theorem decodeClient_ok {mac : Machine}
    (h : decodeClientCode base64Decode mac.settings code = .ok (pub, ip)) :
    decodeClient base64Decode code { mac := mac } =
      (none, { mac := mac, winPub := pub, winIp := ip }) := by
  simp only [decodeClient, h]

theorem decodeClient_error {mac : Machine}
    (h : decodeClientCode base64Decode mac.settings code = .error text) :
    decodeClient base64Decode code { mac := mac } = (some (.badCode text), { mac := mac }) := by
  simp only [decodeClient, h]

theorem decodeClientCode_nil : decodeClientCode base64Decode settings [] ≠ .ok (pub, ip) := by
  intro h
  cases h

end

/-! ## The commands behind the validation -/

theorem ifWritten_error {P : Exit → Prop}
    (h : ∀ shell error, (command shell).1 = some error → P error) :
    ∀ shell error, (ifWritten command shell).1 = some error → P error := by
  intro shell error herror
  unfold ifWritten at herror
  split at herror
  · exact h shell error herror
  · cases herror

theorem daemonUnload_error (calls : DaemonCalls) :
    ∀ shell error, (daemonUnload calls shell).1 = some error → error.rejects = false := by
  intro shell error herror
  unfold daemonUnload at herror
  split at herror
  · cases herror
  · cases herror
    rfl

theorem daemonLoad_error : ∀ shell error, (daemonLoad shell).1 = some error →
    error.rejects = false := by
  intro shell error herror
  unfold daemonLoad at herror
  split at herror
  · cases herror
    rfl
  · cases herror

theorem waitUp_error (calls : DaemonCalls) (failure : String) :
    ∀ shell error, (waitUp calls failure shell).1 = some error → error.rejects = false := by
  intro shell error herror
  unfold waitUp at herror
  dsimp only at herror
  split at herror
  · cases herror
    rfl
  · split at herror
    · cases herror
      rfl
    · cases herror

theorem installPf_error (calls : PfCalls) : ∀ command ∈ installPf calls, ∀ shell error,
    (command shell).1 = some error → error.rejects = false := by
  simp only [installPf, forall_mem_cons]
  refine ⟨?_, ?_, ?_, by simp⟩
  · intro shell error herror
    unfold installAnchor at herror
    dsimp only at herror
    split at herror
    · cases herror
      rfl
    · cases herror
  · intro shell error herror
    unfold editPfConf at herror
    split at herror
    · cases herror
      rfl
    · split at herror
      · cases herror
      · split at herror
        · cases herror
          rfl
        · cases herror
  · intro shell error herror
    unfold activatePf at herror
    split at herror
    · cases herror
    · split at herror
      · cases herror
        rfl
      · cases herror
        rfl

/-! ## The run -/

section

variable (lowerRunes : Bytes → Bytes) (base64Decode : Bytes → Option Bytes)

def Machine.pairSettings (mac : Machine) (pub ip : Bytes) : Bytes :=
  settingsText (mac.setting "endpoint" []) (mac.setting "listen_port" defaultListenPort)
    (mac.setting "mac_ip" defaultMacIp) ip pub

def Machine.pairConf (mac : Machine) (pub ip : Bytes) : Bytes :=
  renderConf (substitution (mac.privateKey.getD [])) (mac.setting "mac_ip" defaultMacIp)
    (mac.setting "listen_port" defaultListenPort) (some (pub, ip))

theorem checkPair_nil (shell : Shell) :
    checkPair [] shell = (some (die "usage: pair 'SCCL1:<windows-code>'"), shell) :=
  if_pos rfl

theorem Machine.single_macIp (mac : Machine) : Single (mac.setting "mac_ip" defaultMacIp) :=
  single_setting _ _ ⟨by decide, by decide⟩

theorem Machine.single_winIp (mac : Machine) : Single (mac.setting "win_ip" defaultWinIp) :=
  single_setting _ _ ⟨by decide, by decide⟩

theorem Machine.single_port (mac : Machine) :
    Single (mac.setting "listen_port" defaultListenPort) :=
  single_setting _ _ ⟨by decide, by decide⟩

theorem setting_ne_nil {default : Bytes} (settings : Option Bytes) (key : String)
    (h : default ≠ []) : setting settings key default ≠ [] := by
  unfold setting
  split
  · exact h
  · dsimp only
    split
    · assumption
    · exact h

structure SameSettings (before after : Machine) : Prop where
  macIp : after.setting "mac_ip" defaultMacIp = before.setting "mac_ip" defaultMacIp
  winIp : after.setting "win_ip" defaultWinIp = before.setting "win_ip" defaultWinIp
  port : after.setting "listen_port" defaultListenPort =
    before.setting "listen_port" defaultListenPort

section

variable (mac : Machine) {pub ip : Bytes} (hpub : Single pub)
  (hip : ip = mac.setting "win_ip" defaultWinIp)

include hpub hip

theorem sameSettings_pair :
    SameSettings mac { mac with settings := some (mac.pairSettings pub ip) } := by
  have hwin : Single ip := hip ▸ mac.single_winIp
  have hportNe : mac.setting "listen_port" defaultListenPort ≠ [] :=
    setting_ne_nil _ _ (by decide)
  have hmacNe : mac.setting "mac_ip" defaultMacIp ≠ [] := setting_ne_nil _ _ (by decide)
  have hwinNe : ip ≠ [] := hip ▸ setting_ne_nil _ _ (by decide)
  have hwinRead := (setting_winIp mac.single_port mac.single_macIp hwin hpub
    (mac.setting "endpoint" []) defaultWinIp).trans (if_pos hwinNe)
  have hmacRead := (setting_macIp mac.single_port mac.single_macIp hwin hpub
    (mac.setting "endpoint" []) defaultMacIp).trans (if_pos hmacNe)
  have hportRead := (setting_port mac.single_port mac.single_macIp hwin hpub
    (mac.setting "endpoint" []) defaultListenPort).trans (if_pos hportNe)
  exact ⟨hmacRead, hwinRead.trans hip, hportRead⟩

theorem staged_pair (hne : pub ≠ []) :
    { mac with settings := some (mac.pairSettings pub ip) }.staged = mac.pairConf pub ip := by
  have hwin : Single ip := hip ▸ mac.single_winIp
  have hpeer : { mac with settings := some (mac.pairSettings pub ip) }.setting "peer_public_key"
      [] = pub :=
    (setting_peerPub mac.single_port mac.single_macIp hwin hpub
      (mac.setting "endpoint" []) []).trans (if_pos hne)
  have hsame := sameSettings_pair mac hpub hip
  rw [Machine.staged, Machine.pairConf, hpeer, if_pos hne, hsame.macIp, hsame.winIp, hsame.port,
    ← hip]

end

variable (code : Bytes) (calls : PairCalls) (mac : Machine)

theorem run_cmdPair_refused
    (hcheck : checkPair code { mac := mac } = (none, { mac := mac }))
    (hrefused : ∀ pub ip, decodeClientCode base64Decode mac.settings code = .ok (pub, ip) →
      ip ≠ mac.setting "win_ip" defaultWinIp) :
    (Script.run (cmdPair lowerRunes base64Decode code calls) { mac := mac }).2.mac = mac := by
  rw [cmdPair]
  simp only [cons_append]
  rw [Script.run_cons_none hcheck]
  cases hdecode : decodeClientCode base64Decode mac.settings code with
  | error text =>
    rw [Script.run_cons_some (decodeClient_error hdecode)]
  | ok peer =>
    let decoded : Shell := { mac := mac, winPub := peer.1, winIp := peer.2 }
    have haddress : checkAddress decoded = (some _, decoded) := if_pos (hrefused _ _ hdecode)
    rw [Script.run_cons_none (decodeClient_ok hdecode), Script.run_cons_some haddress]

theorem run_cmdPair_saved (hcheck : checkPair code { mac := mac } = (none, { mac := mac }))
    (hdecode : decodeClientCode base64Decode mac.settings code = .ok (pub, ip))
    (hip : ip = mac.setting "win_ip" defaultWinIp) :
    (∃ why last, parseConf lowerRunes (mac.pairConf pub ip) = .error why ∧
      Script.run (cmdPair lowerRunes base64Decode code calls) { mac := mac } =
        (some (.validation why), last) ∧
      last.mac = { mac with settings := some (mac.pairSettings pub ip) }) ∨
    (∃ conf, parseConf lowerRunes (mac.pairConf pub ip) = .ok conf ∧
      ∀ error, (Script.run (cmdPair lowerRunes base64Decode code calls) { mac := mac }).1 =
        some error → error.rejects = false) := by
  obtain ⟨hpub, hne⟩ := single_of_decodeClientCode hdecode
  have hstaged := staged_pair mac hpub hip hne
  let decoded : Shell := { mac := mac, winPub := pub, winIp := ip }
  let saved : Shell :=
    { decoded with mac := { mac with settings := some (mac.pairSettings pub ip) } }
  have hclient : decodeClient base64Decode code { mac := mac } = (none, decoded) :=
    decodeClient_ok hdecode
  have haddress : checkAddress decoded = (none, decoded) := if_neg (not_not.mpr hip)
  have hsave : savePair decoded = (none, saved) := rfl
  have hchecked : saved.mac.staged = mac.pairConf pub ip := hstaged
  rw [cmdPair]
  simp only [cons_append]
  rw [Script.run_cons_none hcheck, Script.run_cons_none hclient, Script.run_cons_none haddress,
    Script.run_cons_none hsave]
  cases hparse : parseConf lowerRunes (mac.pairConf pub ip) with
  | error why =>
    have hwrite := writeConf_error hchecked hparse
    exact .inl ⟨why, saved, rfl, Script.run_cons_some hwrite, rfl⟩
  | ok conf =>
    refine .inr ⟨conf, rfl, ?_⟩
    rw [Script.run_cons_none (writeConf_ok hchecked hparse)]
    -- nothing behind the validation rejects the code
    intro error herror
    refine Script.run_error (P := fun error => error.rejects = false) ?_ herror
    simp only [forall_mem_cons]
    exact ⟨ifWritten_error (daemonUnload_error calls.daemon), ifWritten_error daemonLoad_error,
      ifWritten_error (waitUp_error calls.daemon _), by simpa using installPf_error calls.pf⟩

/-- A rejected `pair` changes neither file exactly if, whenever the script accepts the
code, the helper accepts the configuration too or the settings are those already saved. -/
theorem rejected_pair_unchanged_iff (hinitialised : nonEmptyFile mac.privateKey) :
    (∀ error, (Script.run (cmdPair lowerRunes base64Decode code calls) { mac := mac }).1 =
        some error → error.rejects →
      (Script.run (cmdPair lowerRunes base64Decode code calls) { mac := mac }).2.mac.settings =
          mac.settings ∧
        (Script.run (cmdPair lowerRunes base64Decode code calls) { mac := mac }).2.mac.conf =
          mac.conf) ↔
      ∀ pub ip, decodeClientCode base64Decode mac.settings code = .ok (pub, ip) →
        ip = mac.setting "win_ip" defaultWinIp →
        (∃ conf, parseConf lowerRunes (mac.pairConf pub ip) = .ok conf) ∨
          mac.settings = some (mac.pairSettings pub ip) := by
  by_cases hcode : code = []
  · -- `[ -n "$code" ]`
    subst hcode
    rw [cmdPair, cons_append, Script.run_cons_some (checkPair_nil _)]
    constructor
    · exact fun _ pub ip hdecode => absurd hdecode decodeClientCode_nil
    · intro _ error herror hrejects
      cases herror
      cases hrejects
  · have hcheck : checkPair code { mac := mac } = (none, { mac := mac }) := by
      rw [checkPair, if_neg hcode, if_neg (by simp [hinitialised])]
    by_cases haccepted : ∃ pub ip, decodeClientCode base64Decode mac.settings code =
        .ok (pub, ip) ∧ ip = mac.setting "win_ip" defaultWinIp
    · obtain ⟨pub, ip, hdecode, hip⟩ := haccepted
      rw [hdecode]
      rcases run_cmdPair_saved lowerRunes base64Decode code calls mac hcheck hdecode hip with
        ⟨why, last, hparse, hrun, hlast⟩ | ⟨conf, hparse, hrun⟩
      · rw [hrun, hlast]
        constructor
        · intro hunchanged pub ip hok _
          cases hok
          exact .inr (hunchanged _ rfl rfl).1.symm
        · intro hagrees error _ _
          rcases hagrees pub ip rfl hip with ⟨conf, hconf⟩ | hsame
          · rw [hparse] at hconf
            cases hconf
          · exact ⟨hsame.symm, rfl⟩
      · constructor
        · intro _ pub ip hok _
          cases hok
          exact .inl ⟨conf, hparse⟩
        · intro _ error herror hrejects
          rw [hrun error herror] at hrejects
          cases hrejects
    · have hrefused : ∀ pub ip, decodeClientCode base64Decode mac.settings code = .ok (pub, ip) →
          ip ≠ mac.setting "win_ip" defaultWinIp :=
        fun pub ip hdecode hip => haccepted ⟨pub, ip, hdecode, hip⟩
      rw [run_cmdPair_refused lowerRunes base64Decode code calls mac hcheck hrefused]
      constructor
      · exact fun _ pub ip hdecode hip => absurd hip (hrefused pub ip hdecode)
      · exact fun _ error _ _ => ⟨rfl, rfl⟩

end

def initialisedMac : Machine where
  settings := some
    (settingsText (ascii "203.0.113.7") defaultListenPort defaultMacIp defaultWinIp [])
  conf := some (renderConf sampleServer.publicKey defaultMacIp defaultListenPort none)
  privateKey := some (sampleServer.publicKey ++ [newline])
  publicKey := some (sampleServer.publicKey ++ [newline])
  pfConf := some (ascii "set skip on lo0\n")
  pfAnchor := none
  pfLoaded := none
  plist := true
  daemon := some (renderConf sampleServer.publicKey defaultMacIp defaultListenPort none)

def pairCalls : PairCalls where
  daemon := ⟨none, true, []⟩
  pf := ⟨true, true, true, true, []⟩

theorem rejected_pair_unchanged_otherVersion :
    nonEmptyFile initialisedMac.privateKey ∧
      ∀ error, (Script.run (cmdPair id standardDecode (ascii "SCCL2:AAAA") pairCalls)
          { mac := initialisedMac }).1 = some error → error.rejects →
        (Script.run (cmdPair id standardDecode (ascii "SCCL2:AAAA") pairCalls)
            { mac := initialisedMac }).2.mac.settings = initialisedMac.settings ∧
          (Script.run (cmdPair id standardDecode (ascii "SCCL2:AAAA") pairCalls)
            { mac := initialisedMac }).2.mac.conf = initialisedMac.conf := by
  have hinitialised : nonEmptyFile initialisedMac.privateKey := by decide
  refine ⟨hinitialised, (rejected_pair_unchanged_iff id standardDecode (ascii "SCCL2:AAAA")
    pairCalls initialisedMac hinitialised).mpr ?_⟩
  intro pub ip hdecode
  cases hdecode

/-- Its last digit has a low bit set: `is_wg_key` takes it, the helper does not. -/
def looseKey : Bytes := List.replicate 42 65 ++ ascii "B="

def looseCode : Bytes := tagged "SCCL1" (clientBody ⟨looseKey, defaultWinIp⟩)

/-- The key of a refused code stays in the settings. -/
theorem rejected_pair_saved :
    (∃ why, (Script.run (cmdPair id standardDecode looseCode pairCalls)
        { mac := initialisedMac }).1 = some (.validation why)) ∧
      (Script.run (cmdPair id standardDecode looseCode pairCalls)
        { mac := initialisedMac }).2.mac.setting "peer_public_key" [] = looseKey ∧
      initialisedMac.setting "peer_public_key" [] = [] := by
  have hdecode : decodeClientCode standardDecode initialisedMac.settings looseCode =
      .ok (looseKey, defaultWinIp) := by decide +kernel
  have hcheck : checkPair looseCode { mac := initialisedMac } =
      (none, { mac := initialisedMac }) := by
    rw [checkPair, if_neg (by simp [looseCode, tagged]), if_neg (by decide +kernel)]
  have hip : defaultWinIp = initialisedMac.setting "win_ip" defaultWinIp := by decide +kernel
  have hrefused :
      (parseConf id (initialisedMac.pairConf looseKey defaultWinIp)).toOption = none := by
    decide +kernel
  rcases run_cmdPair_saved id standardDecode looseCode pairCalls initialisedMac hcheck hdecode hip
    with ⟨why, last, -, hrun, hlast⟩ | ⟨conf, hparse, -⟩
  · rw [hrun, hlast]
    refine ⟨⟨why, rfl⟩, ?_, by decide +kernel⟩
    decide +kernel
  · rw [hparse] at hrefused
    cases hrefused

end Scshr.Mac
