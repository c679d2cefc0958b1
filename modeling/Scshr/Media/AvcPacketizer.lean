import Scshr.Media.HevcPacketizer

/-! The AVC packetiser of `tools/synth.cpp` and its inverse `reassemble_h264`.  A NAL
unit travels alone or in FU-A fragments.  A unit that needs fragments needs at least
two, so that unlike in HEVC none is lost. -/
namespace Scshr.Media

open Common List

def fuIndicator (first : UInt8) : UInt8 := (first &&& 0xE0) ||| avcNalFuA

def avcFuPayload (first : UInt8) (s e : Bool) (data : Bytes) : Bytes :=
  fuIndicator first :: fragmentHeader s e (avcNalType first) :: data

def avcFragmentPackets (chunk : Nat) (first : UInt8) (last : Bool) :
    Bool → Bytes → List SynthPacket :=
  fragmentLoop (avcFuPayload first) chunk last

def packetizeAvcNal (mtu : Nat) (last : Bool) : Bytes → List SynthPacket
  | [] => []
  | first :: rest =>
      let n := first :: rest
      if n.length ≤ mtu then [⟨n, last⟩]
      else avcFragmentPackets (mtu - 2) first last true rest

def packetizeAvc (mtu : Nat) : List Bytes → List SynthPacket
  | [] => []
  | n :: rest => packetizeAvcNal mtu rest.isEmpty n ++ packetizeAvc mtu rest

/-- `send_avc_config`: a sample entry with both parameter sets behind the marker. -/
def avcConfig (sps pps : Bytes) : Bytes :=
  appleAvcConfigMarker :: (List.replicate 7 0 ++ [0x61, 0x76, 0x63, 0x31] ++ List.replicate 78 0 ++
    putBe32 0 ++ [0x61, 0x76, 0x63, 0x43] ++
    [1, sps.getD 1 0, sps.getD 2 0, sps.getD 3 0, 0xff, 0xe1] ++ putBe16 sps.length ++ sps ++ [1] ++
    putBe16 pps.length ++ pps)

/-- What the packetiser is given: a header byte with forbidden bit 0 and a type of a
single unit, and something behind it. -/
structure AvcPacketizable (n : Bytes) : Prop where
  headed : 2 ≤ n.length
  allowed : n.getD 0 0 &&& 0x80 = 0
  type_pos : 1 ≤ avcNalType (n.getD 0 0)
  type_le : avcNalType (n.getD 0 0) ≤ 23

/-! ## Headers -/

variable {first : UInt8} {state : NalState} {mtu : Nat}

theorem avcNalType_fuIndicator (first : UInt8) : avcNalType (fuIndicator first) = avcNalFuA := by
  revert first
  apply forall_uint8
  decide +kernel

theorem fuIndicator_ne_marker (h : first &&& 0x80 = 0) :
    fuIndicator first ≠ appleAvcConfigMarker := by
  revert first
  apply forall_uint8
  decide +kernel

theorem ne_marker (h : first &&& 0x80 = 0) : first ≠ appleAvcConfigMarker := by
  rintro rfl
  cases h

theorem rebuilt_avc_header (e : Bool) (first : UInt8) :
    ((fuIndicator first &&& 0xE0) ||| (fragmentHeader true e (avcNalType first) &&& 0x1F)) =
      first := by
  revert first
  apply forall_uint8
  cases e <;> decide +kernel

theorem avcNalType_lt (first : UInt8) : avcNalType first < 0x40 := by
  revert first
  apply forall_uint8
  decide +kernel

theorem not_fragment_of_le (h : avcNalType first ≤ 23) :
    ¬ (avcNalType first = avcNalFuA ∨ avcNalType first = avcNalFuB) ∧
      avcNalType first ≠ avcNalStapA := by
  refine ⟨?_, ?_⟩
  · rintro (heq | heq)
    · rw [heq] at h
      exact absurd h (by decide)
    · rw [heq] at h
      exact absurd h (by decide)
  · intro heq
    rw [heq] at h
    exact absurd h (by decide)

/-! ## Actions of the packets -/

section

theorem h264Action_config (h : payload.head? = some appleAvcConfigMarker) :
    h264Action payload = .skip := by
  cases payload with
  | nil => rfl
  | cons marker rest =>
    cases h
    rw [h264Action, if_pos rfl]

theorem h264Action_single (hallowed : first &&& 0x80 = 0) (hpos : 1 ≤ avcNalType first)
    (hle : avcNalType first ≤ 23) (hrest : rest ≠ []) :
    h264Action (first :: rest) = .units [first :: rest] := by
  obtain ⟨hfragment, hstap⟩ := not_fragment_of_le hle
  rw [h264Action, if_neg (ne_marker hallowed), if_neg hfragment, if_neg hstap,
    if_pos ⟨hpos, hle⟩, if_neg hrest]

theorem h264Action_fragment (hallowed : first &&& 0x80 = 0) (s e : Bool) (byte : UInt8)
    (data : Bytes) :
    h264Action (avcFuPayload first s e (byte :: data)) =
      if s then .start ([first] ++ byte :: data) else .more (byte :: data) e := by
  have hother : avcNalFuA ≠ avcNalFuB := by decide
  rw [avcFuPayload, h264Action, if_neg (fuIndicator_ne_marker hallowed), avcNalType_fuIndicator,
    if_pos (.inl rfl), if_neg hother]
  dsimp only
  rw [if_neg (by simp), hasFlag_start s e (avcNalType_lt first),
    hasFlag_end s e (avcNalType_lt first), drop_succ_cons, drop_succ_cons, drop_zero]
  cases s with
  | true =>
    rw [if_pos rfl, if_pos rfl, rebuilt_avc_header]
    rfl
  | false => rfl

end

/-! ## The loop over the packets -/

theorem receive_packetizeAvcNal (hmtu : 3 ≤ mtu) (hn : AvcPacketizable n) (last : Bool)
    (hclosed : state.fuActive = false) :
    (receive h264Action state (packetizeAvcNal mtu last n)).out = (emit state n).out ∧
      (receive h264Action state (packetizeAvcNal mtu last n)).ranges = (emit state n).ranges ∧
      (receive h264Action state (packetizeAvcNal mtu last n)).fuActive = false := by
  obtain ⟨hheaded, hallowed, hpos, hle⟩ := hn
  cases n with
  | nil => exact absurd hheaded (by simp)
  | cons first rest =>
  cases rest with
  | nil => exact absurd hheaded (by simp)
  | cons byte rest =>
    rw [getD_cons_zero] at hallowed hpos hle
    rw [packetizeAvcNal]
    by_cases hfits : (first :: byte :: rest).length ≤ mtu
    · rw [if_pos hfits, receive, map_singleton,
        h264Action_single hallowed hpos hle (cons_ne_nil byte rest)]
      exact ⟨rfl, rfl, hclosed⟩
    · simp only [length_cons] at hfits
      -- one chunk is shorter than the unit without its header
      have hlong : ¬ rest.length ≤ mtu - 2 - 1 := by omega
      have hactions := (actions_fragmentLoop (mtu - 2) (h264Action_fragment hallowed) last
        (byte :: rest)).1
      rw [if_neg (by simpa using hfits), receive, avcFragmentPackets, hactions,
        apply_fragmentActions, if_neg hlong]
      exact ⟨rfl, rfl, rfl⟩

theorem receive_packetizeAvc (hmtu : 3 ≤ mtu) (hunits : ∀ n ∈ units, AvcPacketizable n)
    (hinside : InBounds state) (hclosed : state.fuActive = false) :
    (receive h264Action state (packetizeAvc mtu units)).units = state.units ++ units ∧
      (receive h264Action state (packetizeAvc mtu units)).out =
        state.out ++ units.flatMap (startCode ++ ·) ∧
      (receive h264Action state (packetizeAvc mtu units)).fuActive = false := by
  induction units generalizing state with
  | nil => exact ⟨(append_nil _).symm, (append_nil _).symm, hclosed⟩
  | cons n rest ih =>
    rw [forall_mem_cons] at hunits
    obtain ⟨hout, hranges, hactive⟩ :=
      receive_packetizeAvcNal hmtu hunits.1 rest.isEmpty hclosed
    have hnext : InBounds (receive h264Action state (packetizeAvcNal mtu rest.isEmpty n)) := by
      unfold InBounds
      rw [hout, hranges]
      exact hinside.emit n
    have hrecorded : (receive h264Action state (packetizeAvcNal mtu rest.isEmpty n)).units =
        state.units ++ [n] := by
      rw [← units_emit hinside n]
      unfold NalState.units
      rw [hout, hranges]
    obtain ⟨hrest, hbuffer, hend⟩ := ih hunits.2 hnext hactive
    rw [packetizeAvc, receive_append]
    refine ⟨?_, ?_, hend⟩
    · rw [hrest, hrecorded, append_assoc]
      rfl
    · rw [hbuffer, hout, emit, flatMap_cons]
      simp only [append_assoc]

/-- Packetising and reassembling gives the units back, whatever configuration packet
comes first, and the buffer is their Annex B stream. -/
theorem avc_round_trip (mtu : Nat) (hmtu : 3 ≤ mtu) (config : Option Bytes)
    (hconfig : ∀ payload ∈ config, payload.head? = some appleAvcConfigMarker)
    (units : List Bytes) (hunits : ∀ n ∈ units, AvcPacketizable n) :
    (reassembleH264 (config.toList ++ (packetizeAvc mtu units).map SynthPacket.payload)).units =
        units ∧
      (reassembleH264 (config.toList ++ (packetizeAvc mtu units).map SynthPacket.payload)).out =
        units.flatMap (startCode ++ ·) := by
  have hskipped : (config.toList.map h264Action).foldl NalAction.apply NalState.empty =
      NalState.empty := by
    cases config with
    | none => rfl
    | some payload =>
      rw [Option.toList_some, map_singleton, h264Action_config (hconfig payload rfl)]
      rfl
  have hrun : reassembleH264 (config.toList ++ (packetizeAvc mtu units).map SynthPacket.payload) =
      finish (receive h264Action NalState.empty (packetizeAvc mtu units)) := by
    unfold reassembleH264 reassemble receive
    rw [map_append, foldl_append, hskipped, map_map]
    rfl
  have hempty : InBounds NalState.empty := by
    intro range hrange
    cases hrange
  obtain ⟨hrecorded, hbuffer, hclosed⟩ := receive_packetizeAvc hmtu hunits hempty rfl
  have hfinish : finish (receive h264Action NalState.empty (packetizeAvc mtu units)) =
      receive h264Action NalState.empty (packetizeAvc mtu units) := by
    rw [finish, hclosed]
    rfl
  rw [hrun, hfinish]
  exact ⟨hrecorded, hbuffer⟩

def twoAvcUnits : List Bytes := [[0x06, 5], [0x65, 1, 2, 3, 4, 5]]

theorem avc_round_trip_twoUnits :
    (reassembleH264 ([avcConfig [0x67, 100, 0, 40] [0x68, 1]] ++
        (packetizeAvc 4 twoAvcUnits).map SynthPacket.payload)).units = twoAvcUnits := by
  have hunits : ∀ n ∈ twoAvcUnits, AvcPacketizable n := by
    simp only [twoAvcUnits, forall_mem_cons]
    exact ⟨⟨by decide, by decide, by decide, by decide⟩,
      ⟨by decide, by decide, by decide, by decide⟩, by simp⟩
  refine (avc_round_trip 4 (by decide) (some (avcConfig [0x67, 100, 0, 40] [0x68, 1])) ?_
    twoAvcUnits hunits).1
  intro payload hpayload
  cases hpayload
  rfl

end Scshr.Media
