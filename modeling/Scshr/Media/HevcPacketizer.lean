import Scshr.Media.Nalu

/-! The HEVC packetiser of `tools/synth.cpp` and its inverse `reassemble_hevc`.
A NAL unit travels in an aggregation packet, as a single unit or in fragments,
each with a DONL.  The packetiser marks the only fragment of a unit as first and
last, and the reassembler does not look at the end bit of a first fragment. -/
namespace Scshr.Media

open Common List

structure SynthPacket where
  payload : Bytes
  marker : Bool
  deriving DecidableEq, Repr

def payloadHeader (type first : UInt8) : UInt8 := (type <<< 1) ||| (first &&& 0x81)

def fragmentHeader (s e : Bool) (t : UInt8) : UInt8 :=
  (if s then 0x80 else 0) ||| (if e then 0x40 else 0) ||| t

/-- The fragmentation loop of both packetisers on the bytes from `off` on; `s` says that it is
at the first of them. -/
def fragmentLoop (wrap : Bool → Bool → Bytes → Bytes) (chunk : Nat) (last : Bool) :
    Bool → Bytes → List SynthPacket
  | _, [] => []
  | s, byte :: rest =>
      -- with a chunk of at least one byte, `len` bytes and what is left behind them
      let data := byte :: rest.take (chunk - 1)
      let left := rest.drop (chunk - 1)
      let e := left.isEmpty
      ⟨wrap s e data, last && e⟩ :: fragmentLoop wrap chunk last false left
termination_by _ bytes => bytes.length
decreasing_by simp only [length_drop, length_cons]; omega

def fuPayload (first second : UInt8) (donl : UInt16) (s e : Bool) (data : Bytes) : Bytes :=
  payloadHeader hevcNalFu first :: second :: fragmentHeader s e (hevcNalType first) ::
    (putBe16 donl.toNat ++ data)

def fragmentPackets (chunk : Nat) (first second : UInt8) (donl : UInt16) (last : Bool) :
    Bool → Bytes → List SynthPacket :=
  fragmentLoop (fuPayload first second donl) chunk last

def isParameterSet (t : UInt8) : Bool := t = hevcNalVps || t = hevcNalSps || t = hevcNalPps

def packetizeNal (mtu : Nat) (donl : UInt16) (last : Bool) : Bytes → List SynthPacket
  | first :: second :: rest =>
      let n := first :: second :: rest
      let t := hevcNalType first
      if isParameterSet t then
        [⟨payloadHeader hevcNalAp first :: second ::
          (putBe16 donl.toNat ++ putBe16 n.length ++ n), false⟩]
      else if n.length + 4 ≤ mtu then
        [⟨first :: second :: (putBe16 donl.toNat ++ rest), last⟩]
      else fragmentPackets (mtu - 5) first second donl last true rest
  | _ => []

def packetizeHevc (mtu : Nat) (donl : UInt16) : List Bytes → List SynthPacket
  | [] => []
  | n :: rest => packetizeNal mtu donl rest.isEmpty n ++ packetizeHevc mtu donl rest

def NalState.units (state : NalState) : List Bytes :=
  state.ranges.map fun range => (state.out.drop range.off).take range.len

/-- What the packetiser is given: a header, no packet type of its own, and a
parameter set that its sixteen-bit size field holds. -/
structure Packetizable (n : Bytes) : Prop where
  headed : 2 ≤ n.length
  notAp : hevcNalType (n.getD 0 0) ≠ hevcNalAp
  notFu : hevcNalType (n.getD 0 0) ≠ hevcNalFu
  sized : isParameterSet (hevcNalType (n.getD 0 0)) → n.length < 65536

def OneFragment (mtu : Nat) (n : Bytes) : Prop :=
  isParameterSet (hevcNalType (n.getD 0 0)) = false ∧ n.length + 3 = mtu

instance (mtu : Nat) (n : Bytes) : Decidable (OneFragment mtu n) :=
  inferInstanceAs (Decidable (_ ∧ _))

/-! ## Headers -/

variable {n : Bytes} {state : NalState}

theorem forall_uint8 {p : UInt8 → Prop} (h : ∀ value : Fin 256, p (UInt8.ofFin value))
    (byte : UInt8) : p byte := by
  have hbyte : UInt8.ofFin byte.toFin = byte := rfl
  rw [← hbyte]
  exact h byte.toFin

theorem hevcNalType_payloadHeader_ap (first : UInt8) :
    hevcNalType (payloadHeader hevcNalAp first) = hevcNalAp := by
  apply forall_uint8 (p := fun first => hevcNalType (payloadHeader hevcNalAp first) = hevcNalAp)
  decide +kernel

theorem hevcNalType_payloadHeader_fu (first : UInt8) :
    hevcNalType (payloadHeader hevcNalFu first) = hevcNalFu := by
  apply forall_uint8 (p := fun first => hevcNalType (payloadHeader hevcNalFu first) = hevcNalFu)
  decide +kernel

theorem rebuilt_header (e : Bool) (first : UInt8) :
    ((payloadHeader hevcNalFu first &&& 0x81) |||
      ((fragmentHeader true e (hevcNalType first) &&& (0x3F : UInt8)) <<< (1 : UInt8))) =
        first := by
  revert e first
  intro e
  apply forall_uint8
  cases e <;> decide +kernel

theorem hevcNalType_lt (first : UInt8) : hevcNalType first < 0x40 := by
  revert first
  apply forall_uint8
  decide +kernel

section

variable {type : UInt8} (s e : Bool)

theorem hasFlag_start (h : type < 0x40) : hasFlag (fragmentHeader s e type) 0x80 = s := by
  revert type
  apply forall_uint8
  cases s <;> cases e <;> decide +kernel

theorem hasFlag_end (h : type < 0x40) : hasFlag (fragmentHeader s e type) 0x40 = e := by
  revert type
  apply forall_uint8
  cases s <;> cases e <;> decide +kernel

end

/-! ## Actions of the packets -/

theorem hevcAction_single (hap : hevcNalType first ≠ hevcNalAp)
    (hfu : hevcNalType first ≠ hevcNalFu) (donl : Nat) (rest : Bytes) :
    hevcAction (first :: second :: (putBe16 donl ++ rest)) = .units [first :: second :: rest] := by
  simp [hevcAction, putBe16, hap, hfu]

theorem aggregatedUnits_one (hne : n ≠ []) (hsize : n.length < 65536) :
    aggregatedUnits (putBe16 n.length ++ n) = [n] := by
  have hpos := length_pos_iff.mpr hne
  have hread : be16 (UInt8.ofNat (n.length / 256)) (UInt8.ofNat n.length) = n.length := by
    rw [be16_ofNat]
    exact Nat.mod_eq_of_lt hsize
  have hstop : aggregatedUnits [] = [] := by rw [aggregatedUnits]; simp
  have hcons : putBe16 n.length ++ n =
      UInt8.ofNat (n.length / 256) :: UInt8.ofNat n.length :: n := rfl
  rw [hcons, aggregatedUnits, hread]
  simp only [take_length, drop_length, hstop]
  rw [if_neg]
  omega

theorem hevcAction_aggregation (first second : UInt8) (donl : Nat) (hne : n ≠ [])
    (hsize : n.length < 65536) :
    hevcAction (payloadHeader hevcNalAp first :: second ::
      (putBe16 donl ++ putBe16 n.length ++ n)) = .units [n] := by
  have hdrop : (putBe16 donl ++ putBe16 n.length ++ n).drop 2 = putBe16 n.length ++ n := rfl
  unfold hevcAction
  simp only [hevcNalType_payloadHeader_ap, if_true, hdrop, aggregatedUnits_one hne hsize]

theorem hevcAction_fragment (first second : UInt8) (donl : UInt16) (s e : Bool) (byte : UInt8)
    (data : Bytes) :
    hevcAction (fuPayload first second donl s e (byte :: data)) =
      if s then .start ([first, second] ++ byte :: data) else .more (byte :: data) e := by
  have hnot : hevcNalFu ≠ hevcNalAp := by decide
  have htype := hevcNalType_lt first
  cases s with
  | true =>
    simp [fuPayload, hevcAction, hevcNalType_payloadHeader_fu, hnot, putBe16,
      hasFlag_start _ _ htype, rebuilt_header]
  | false =>
    simp [fuPayload, hevcAction, hevcNalType_payloadHeader_fu, hnot, putBe16,
      hasFlag_start _ _ htype, hasFlag_end _ _ htype]

/-! ## The loop over the packets -/

section

variable (action : Bytes → NalAction)

/-- The state behind some packets, which `action` reads. -/
def receive (state : NalState) (packets : List SynthPacket) : NalState :=
  (packets.map fun packet => action packet.payload).foldl NalAction.apply state

theorem receive_cons (state : NalState) (packet : SynthPacket) (packets : List SynthPacket) :
    receive action state (packet :: packets) =
      receive action ((action packet.payload).apply state) packets :=
  rfl

theorem receive_append (state : NalState) (front back : List SynthPacket) :
    receive action state (front ++ back) =
      receive action (receive action state front) back := by
  unfold receive
  rw [map_append, foldl_append]

end

def furtherActions (chunk : Nat) : Bytes → List NalAction
  | [] => []
  | byte :: rest =>
      .more (byte :: rest.take (chunk - 1)) (rest.drop (chunk - 1)).isEmpty ::
        furtherActions chunk (rest.drop (chunk - 1))
termination_by bytes => bytes.length
decreasing_by simp only [length_drop, length_cons]; omega

/-- The actions of all fragments of a unit, whose header is not in its fragments. -/
def fragmentActions (chunk : Nat) (header : Bytes) : Bytes → List NalAction
  | [] => []
  | byte :: rest =>
      .start (header ++ byte :: rest.take (chunk - 1)) ::
        furtherActions chunk (rest.drop (chunk - 1))

variable (chunk : Nat)

theorem apply_furtherActions (hactive : state.fuActive = true) {data : Bytes} (hdata : data ≠ []) :
    (furtherActions chunk data).foldl NalAction.apply state =
      { state with
        out := state.out ++ data
        ranges := state.ranges ++ [⟨state.fuOff, (state.out ++ data).length - state.fuOff⟩]
        fuActive := false } := by
  induction hsize : data.length using Nat.strongRecOn generalizing state data with
  | ind size ih =>
    cases data with
    | nil => exact absurd rfl hdata
    | cons byte rest =>
      have hsplit : byte :: (rest.take (chunk - 1) ++ rest.drop (chunk - 1)) = byte :: rest := by
        rw [take_append_drop]
      rw [furtherActions, foldl_cons]
      cases hleft : rest.drop (chunk - 1) with
      | nil =>
        rw [hleft, append_nil] at hsplit
        rw [hsplit, furtherActions]
        simp [NalAction.apply, continueFragment, hactive]
      | cons next more =>
        have hshort : (next :: more).length < size := by
          rw [← hleft, ← hsize, length_drop, length_cons]
          omega
        have hstep : NalAction.apply state (.more (byte :: rest.take (chunk - 1)) false) =
            { state with out := state.out ++ byte :: rest.take (chunk - 1) } := by
          simp [NalAction.apply, continueFragment, hactive]
        rw [isEmpty_cons, hstep]
        rw [hleft] at hsplit
        have hrest := @ih _ hshort { state with out := state.out ++ byte :: rest.take (chunk - 1) }
          hactive (next :: more) (cons_ne_nil next more) rfl
        rw [hrest]
        simp [← hsplit]

theorem apply_fragmentActions (header : Bytes) (state : NalState) (byte : UInt8) (rest : Bytes) :
    (fragmentActions chunk header (byte :: rest)).foldl NalAction.apply state =
      if rest.length ≤ chunk - 1 then startFragment state (header ++ byte :: rest)
      else
        { emit state (header ++ byte :: rest) with
          fuActive := false
          fuOff := (state.out ++ startCode).length } := by
  have hsplit : byte :: (rest.take (chunk - 1) ++ rest.drop (chunk - 1)) = byte :: rest := by
    rw [take_append_drop]
  rw [fragmentActions, foldl_cons]
  cases hleft : rest.drop (chunk - 1) with
  | nil =>
    rw [hleft, append_nil] at hsplit
    rw [hsplit, if_pos (drop_eq_nil_iff.mp hleft), furtherActions]
    rfl
  | cons next more =>
    have hlong : ¬ rest.length ≤ chunk - 1 := by
      intro hshort
      rw [drop_eq_nil_iff.mpr hshort] at hleft
      cases hleft
    rw [hleft] at hsplit
    rw [if_neg hlong, ← hsplit]
    have hopen : (startFragment state (header ++ byte :: rest.take (chunk - 1))).fuActive =
        true := rfl
    rw [NalAction.apply, apply_furtherActions chunk hopen (cons_ne_nil next more)]
    simp only [startFragment, emit, append_assoc, cons_append, length_append,
      length_cons]
    congr
    omega

theorem actions_fragmentLoop {action : Bytes → NalAction} {wrap : Bool → Bool → Bytes → Bytes}
    {header : Bytes} (hwrap : ∀ s e byte data, action (wrap s e (byte :: data)) =
      if s then .start (header ++ byte :: data) else .more (byte :: data) e) (last : Bool)
    (data : Bytes) :
    (fragmentLoop wrap chunk last true data).map (fun packet => action packet.payload) =
        fragmentActions chunk header data ∧
      (fragmentLoop wrap chunk last false data).map (fun packet => action packet.payload) =
        furtherActions chunk data := by
  induction hsize : data.length using Nat.strongRecOn generalizing data with
  | ind size ih =>
    cases data with
    | nil =>
      rw [fragmentLoop, fragmentLoop, furtherActions]
      exact ⟨rfl, rfl⟩
    | cons byte rest =>
      have hshort : (rest.drop (chunk - 1)).length < size := by
        rw [← hsize, length_drop, length_cons]
        omega
      have hrest := (ih _ hshort (rest.drop (chunk - 1)) rfl).2
      rw [fragmentLoop, fragmentLoop, furtherActions, fragmentActions, map_cons, map_cons, hrest,
        hwrap, hwrap]
      exact ⟨rfl, rfl⟩

theorem receive_fragments (first second : UInt8) (donl : UInt16) (last : Bool) (state : NalState)
    (byte : UInt8) (rest : Bytes) :
    receive hevcAction state (fragmentPackets chunk first second donl last true (byte :: rest)) =
      if rest.length ≤ chunk - 1 then startFragment state (first :: second :: byte :: rest)
      else
        { emit state (first :: second :: byte :: rest) with
          fuActive := false
          fuOff := (state.out ++ startCode).length } := by
  have hactions := (actions_fragmentLoop chunk (hevcAction_fragment first second donl) last
    (byte :: rest)).1
  rw [receive, fragmentPackets, hactions]
  exact apply_fragmentActions chunk [first, second] state byte rest

section

variable {mtu : Nat}

theorem receive_oneFragment (hmtu : 6 ≤ mtu) (hlost : OneFragment mtu n) (donl : UInt16)
    (last : Bool) (state : NalState) :
    receive hevcAction state (packetizeNal mtu donl last n) = startFragment state n := by
  obtain ⟨hparameter, hlength⟩ := hlost
  match n, hlength with
  | first :: second :: byte :: rest, hlength =>
    have hslice : ¬ isParameterSet (hevcNalType first) = true := Bool.eq_false_iff.mp hparameter
    simp only [length_cons] at hlength
    rw [packetizeNal, if_neg hslice, if_neg, receive_fragments, if_pos (by omega)]
    simp only [length_cons]
    omega
  | [_, _], hlength => simp only [length_cons, length_nil] at hlength; omega
  | [_], hlength => simp only [length_cons, length_nil] at hlength; omega
  | [], hlength => simp only [length_nil] at hlength; omega

theorem receive_packetizeNal (hmtu : 6 ≤ mtu) (hn : Packetizable n) (hlost : ¬ OneFragment mtu n)
    (donl : UInt16) (last : Bool) (state : NalState) :
    (receive hevcAction state (packetizeNal mtu donl last n)).out = (emit state n).out ∧
      (receive hevcAction state (packetizeNal mtu donl last n)).ranges = (emit state n).ranges ∧
      (state.fuActive = false →
        (receive hevcAction state (packetizeNal mtu donl last n)).fuActive = false) := by
  obtain ⟨hheaded, hap, hfu, hsized⟩ := hn
  cases n with
  | nil => exact absurd hheaded (by simp)
  | cons first tail =>
  cases tail with
  | nil => exact absurd hheaded (by simp)
  | cons second rest =>
    rw [packetizeNal]
    by_cases hparameter : isParameterSet (hevcNalType first) = true
    · rw [if_pos hparameter, receive_cons, hevcAction_aggregation first second donl.toNat
        (cons_ne_nil first _) (hsized hparameter)]
      exact ⟨rfl, rfl, id⟩
    · rw [if_neg hparameter]
      by_cases hfits : (first :: second :: rest).length + 4 ≤ mtu
      · have hsingle := @hevcAction_single first second hap hfu donl.toNat rest
        rw [if_pos hfits, receive_cons, hsingle]
        exact ⟨rfl, rfl, id⟩
      · rw [if_neg hfits]
        simp only [length_cons] at hfits
        have hlong : rest.length + 5 ≠ mtu := by
          intro hlength
          exact hlost ⟨Bool.eq_false_iff.mpr hparameter, hlength⟩
        cases rest with
        | nil => exact absurd hmtu hfits
        | cons byte rest =>
          simp only [length_cons] at hfits hlong
          rw [receive_fragments, if_neg (by omega)]
          exact ⟨rfl, rfl, fun _ => rfl⟩

end

/-! ## The units of an access unit -/

def InBounds (state : NalState) : Prop :=
  ∀ range ∈ state.ranges, range.off + range.len ≤ state.out.length

theorem InBounds.emit (h : InBounds state) (n : Bytes) : InBounds (emit state n) := by
  intro range hrange
  simp only [Media.emit, length_append]
  rcases mem_append.mp hrange with hold | hnew
  · have hbound := h range hold
    omega
  · rw [mem_singleton.mp hnew]
    simp only [length_append]
    omega

theorem units_emit (h : InBounds state) (n : Bytes) :
    (emit state n).units = state.units ++ [n] := by
  unfold NalState.units emit
  simp only [map_append, map_cons, map_nil]
  congr 1
  · apply map_congr_left
    intro range hrange
    have hbound := h range hrange
    rw [append_assoc, drop_append_of_le_length (by omega),
      take_append_of_le_length]
    rw [length_drop]
    omega
  · rw [drop_left, take_length]

section

variable {mtu : Nat} {units : List Bytes}

theorem receive_packetizeHevc (hmtu : 6 ≤ mtu) (hunits : ∀ n ∈ units, Packetizable n)
    (hlost : ∀ n ∈ units, ¬ OneFragment mtu n) (donl : UInt16) (hinside : InBounds state)
    (hclosed : state.fuActive = false) :
    (receive hevcAction state (packetizeHevc mtu donl units)).units = state.units ++ units ∧
      (receive hevcAction state (packetizeHevc mtu donl units)).fuActive = false := by
  induction units generalizing state with
  | nil => exact ⟨(append_nil _).symm, hclosed⟩
  | cons n rest ih =>
    rw [forall_mem_cons] at hunits hlost
    obtain ⟨hout, hranges, hactive⟩ :=
      receive_packetizeNal hmtu hunits.1 hlost.1 donl rest.isEmpty state
    have hnext : InBounds (receive hevcAction state (packetizeNal mtu donl rest.isEmpty n)) := by
      unfold InBounds
      rw [hout, hranges]
      exact hinside.emit n
    have hrecorded : (receive hevcAction state (packetizeNal mtu donl rest.isEmpty n)).units =
        state.units ++ [n] := by
      rw [← units_emit hinside n]
      unfold NalState.units
      rw [hout, hranges]
    rw [packetizeHevc, receive_append]
    have hrest := ih hunits.2 hlost.2 hnext (hactive hclosed)
    rw [hrecorded, append_assoc] at hrest
    exact hrest

theorem length_ranges_receive (hmtu : 6 ≤ mtu) (hunits : ∀ n ∈ units, Packetizable n)
    (donl : UInt16) (state : NalState) :
    (receive hevcAction state (packetizeHevc mtu donl units)).ranges.length =
      state.ranges.length + units.countP fun n => ¬ OneFragment mtu n := by
  induction units generalizing state with
  | nil => rfl
  | cons n rest ih =>
    rw [forall_mem_cons] at hunits
    rw [packetizeHevc, receive_append, ih hunits.2, countP_cons]
    by_cases hlost : OneFragment mtu n
    · rw [receive_oneFragment hmtu hlost]
      simp [startFragment, hlost]
    · rw [(receive_packetizeNal hmtu hunits.1 hlost donl _ state).2.1]
      simp only [emit, length_append, length_singleton, hlost, not_false_eq_true,
        decide_true, if_true]
      omega

end

theorem ranges_finish (state : NalState) : (finish state).ranges = state.ranges := by
  unfold finish
  split <;> rfl

/-- An access unit survives packetisation exactly when none of its slices is cut
into one fragment. -/
theorem hevc_round_trip_iff (mtu : Nat) (hmtu : 6 ≤ mtu) (donl : UInt16) (units : List Bytes)
    (hunits : ∀ n ∈ units, Packetizable n) :
    (reassembleHevc ((packetizeHevc mtu donl units).map SynthPacket.payload)).units = units ↔
      ∀ n ∈ units, isParameterSet (hevcNalType (n.getD 0 0)) = true ∨ n.length + 3 ≠ mtu := by
  have hrun : reassembleHevc ((packetizeHevc mtu donl units).map SynthPacket.payload) =
      finish (receive hevcAction NalState.empty (packetizeHevc mtu donl units)) := by
    unfold reassembleHevc reassemble receive
    rw [map_map]
    rfl
  have hcondition : (∀ n ∈ units, isParameterSet (hevcNalType (n.getD 0 0)) = true ∨
      n.length + 3 ≠ mtu) ↔ ∀ n ∈ units, ¬ OneFragment mtu n := by
    apply forall₂_congr
    intro n _
    rw [OneFragment, not_and_or, Bool.not_eq_false]
  rw [hrun, hcondition]
  constructor
  · -- a lost unit leaves one range too few
    intro hequal n hn hlost
    have hcount := length_ranges_receive hmtu hunits donl NalState.empty
    have hlength := congrArg List.length hequal
    unfold NalState.units at hlength
    rw [length_map, ranges_finish, hcount] at hlength
    have hall : units.countP (fun n => ¬ OneFragment mtu n) = units.length := by
      simpa [NalState.empty] using hlength
    have hkept := countP_eq_length.mp hall n hn
    simp [hlost] at hkept
  · intro hlost
    have hempty : InBounds NalState.empty := by
      intro range hrange
      cases hrange
    obtain ⟨hrecorded, hclosed⟩ := receive_packetizeHevc hmtu hunits hlost donl hempty rfl
    unfold finish
    rw [hclosed]
    exact hrecorded

def threeUnits : List Bytes :=
  [[0x40, 1, 7], [0x02, 1, 8, 9], [0x02, 1, 1, 2, 3, 4, 5, 6]]

theorem threeUnits_packetizable : ∀ n ∈ threeUnits, Packetizable n := by
  intro n hn
  simp only [threeUnits, mem_cons, not_mem_nil, or_false] at hn
  rcases hn with rfl | rfl | rfl <;> exact ⟨by decide, by decide, by decide, fun _ => by decide⟩

theorem hevc_round_trip_threeUnits :
    (reassembleHevc ((packetizeHevc 10 0 threeUnits).map SynthPacket.payload)).units =
      threeUnits :=
  (hevc_round_trip_iff 10 (by decide) 0 threeUnits threeUnits_packetizable).mpr (by decide)

def boundarySlice : Bytes := [0x02, 1] ++ List.replicate 1195 0

/-- At the default MTU of 1200 bytes the slice is one fragment and is lost. -/
theorem boundarySlice_lost :
    Packetizable boundarySlice ∧
      (reassembleHevc ((packetizeHevc 1200 0 [boundarySlice]).map SynthPacket.payload)).units =
        [] := by
  have hlength : boundarySlice.length = 1197 := by
    rw [boundarySlice, length_append, length_replicate]
    rfl
  have hlost : OneFragment 1200 boundarySlice := ⟨by decide, by omega⟩
  constructor
  · exact ⟨by omega, by decide, by decide, fun _ => by omega⟩
  · have hone : packetizeHevc 1200 0 [boundarySlice] = packetizeNal 1200 0 true boundarySlice :=
      append_nil _
    have hopen := receive_oneFragment (by decide) hlost 0 true NalState.empty
    unfold NalState.units reassembleHevc reassemble
    rw [hone, map_map, ranges_finish]
    exact congrArg (fun state : NalState => state.ranges.map _) hopen

end Scshr.Media
