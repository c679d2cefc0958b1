import Scshr.Common.Bytes

/-! NAL unit reassembly (`media/nalu.cpp`).  The two loops share one buffer and
one range list between complete units and a single open fragmentation unit, so
each payload is modelled as a step on the whole loop state. -/
namespace Scshr.Media

open Common

structure NalRange where
  off : Nat
  len : Nat
  deriving DecidableEq, Repr

def startCode : Bytes := [0, 0, 0, 1]

structure NalState where
  out : Bytes
  ranges : List NalRange
  fuActive : Bool
  fuOff : Nat
  deriving DecidableEq, Repr

def NalState.empty : NalState := ⟨[], [], false, 0⟩

def emit (state : NalState) (unit : Bytes) : NalState :=
  let out := state.out ++ startCode
  { state with
    out := out ++ unit
    ranges := state.ranges ++ [⟨out.length, unit.length⟩] }

/-- Open a fragmentation unit.  An already open one is abandoned: its bytes
stay in the buffer and only the offset is overwritten. -/
def startFragment (state : NalState) (unit : Bytes) : NalState :=
  let out := state.out ++ startCode
  { state with out := out ++ unit, fuActive := true, fuOff := out.length }

/-- A fragment without the start bit: ignored unless a unit is open. -/
def continueFragment (state : NalState) (data : Bytes) (last : Bool) : NalState :=
  if state.fuActive then
    let out := state.out ++ data
    if last then
      { state with
        out := out
        ranges := state.ranges ++ [⟨state.fuOff, out.length - state.fuOff⟩]
        fuActive := false }
    else { state with out := out }
  else state

/-- The `while (pos + 2 <= n)` loop of the aggregation packets, on the bytes
from `pos` on: sized units until one is empty or runs past the payload. -/
def aggregatedUnits : Bytes → List Bytes
  | high :: low :: rest =>
      let size := be16 high low
      if size = 0 ∨ rest.length < size then []
      else rest.take size :: aggregatedUnits (rest.drop size)
  | _ => []
termination_by bytes => bytes.length
decreasing_by simp only [List.length_drop, List.length_cons]; omega

inductive NalAction where
  | skip
  | units (nals : List Bytes)
  | start (unit : Bytes)
  | more (data : Bytes) (last : Bool)
  deriving DecidableEq, Repr

def NalAction.apply (state : NalState) : NalAction → NalState
  | .skip => state
  | .units nals => nals.foldl emit state
  | .start unit => startFragment state unit
  | .more data last => continueFragment state data last

def hasFlag (header mask : UInt8) : Bool := header &&& mask != 0

def hevcNalVps : UInt8 := 32
def hevcNalSps : UInt8 := 33
def hevcNalPps : UInt8 := 34
def hevcNalAp : UInt8 := 48
def hevcNalFu : UInt8 := 49

def hevcNalType (header : UInt8) : UInt8 := (header >>> 1) &&& 0x3F

/-- The branches of `reassemble_hevc`: aggregation packets, fragments (with a
DONL in every one of them), and single units behind a two-byte DONL. -/
def hevcAction : Bytes → NalAction
  | first :: second :: rest =>
      if hevcNalType first = hevcNalAp then .units (aggregatedUnits (rest.drop 2))
      else if hevcNalType first = hevcNalFu then
        match rest with
        | header :: _ :: _ :: data =>
            -- `pay.size() < 6` also rejects a fragment that carries no data
            if data = [] then .skip
            else if hasFlag header 0x80 then
              let hdr0 : UInt8 := (first &&& 0x81) ||| ((header &&& (0x3F : UInt8)) <<< (1 : UInt8))
              .start (hdr0 :: second :: data)
            else .more data (hasFlag header 0x40)
        | _ => .skip
      else
        match rest with
        | _ :: _ :: data => .units [first :: second :: data]
        | _ => .skip
  | _ => .skip

def appleAvcConfigMarker : UInt8 := 0x92
def avcNalStapA : UInt8 := 24
def avcNalFuA : UInt8 := 28
def avcNalFuB : UInt8 := 29

def avcNalType (header : UInt8) : UInt8 := header &&& 0x1F

/-- The branches of `reassemble_h264`.  Only FU-B and STAP-A carry a DON. -/
def h264Action : Bytes → NalAction
  | [] => .skip
  | first :: rest =>
      if first = appleAvcConfigMarker then .skip
      else if avcNalType first = avcNalFuA ∨ avcNalType first = avcNalFuB then
        let dataOff := if avcNalType first = avcNalFuB then 4 else 2
        match rest with
        | [] => .skip
        | header :: _ =>
            let pay := first :: rest
            if pay.length < dataOff then .skip
            else if hasFlag header 0x80 then
              let hdr0 : UInt8 := (first &&& 0xE0) ||| (header &&& 0x1F)
              .start (hdr0 :: pay.drop dataOff)
            else .more (pay.drop dataOff) (hasFlag header 0x40)
      else if avcNalType first = avcNalStapA then .units (aggregatedUnits (rest.drop 2))
      else if 1 ≤ avcNalType first ∧ avcNalType first ≤ 23 then
        if rest = [] then .skip else .units [first :: rest]
      else .skip

/-- The code after both loops: drop the bytes of an unterminated fragment. -/
def finish (state : NalState) : NalState :=
  if state.fuActive then { state with out := state.out.take (state.fuOff - 4) } else state

def reassemble (actions : List NalAction) : NalState :=
  finish (actions.foldl NalAction.apply NalState.empty)

def reassembleHevc (payloads : List Bytes) : NalState :=
  reassemble (payloads.map hevcAction)

def reassembleH264 (payloads : List Bytes) : NalState :=
  reassemble (payloads.map h264Action)

end Scshr.Media
