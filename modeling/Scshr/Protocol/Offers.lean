import Scshr.Common.Bytes
import Scshr.Lib.Loop

/-! The protobuf walks of `protocol/offers.cpp` over a decompressed media blob:
the field loop of `extract_offer_ssrc`, and the one of `extract_canvas_dims`
with the loop over a nested message inside it.  Lengths come from the blob and
are added to the position in 64 bits. -/
namespace Scshr.Protocol

open Common Lib

structure CanvasDims where
  w : UInt32 := 0
  h : UInt32 := 0
  tiles : UInt32 := 0
  ltrp : Int := -1
  deriving DecidableEq, Repr

namespace Offers

/-- The loop of `read_varint` on the bytes from the position on: the value and
the number of bytes taken. -/
def varintLoop : Bytes → Nat → Nat → Option (Nat × Nat)
  | [], _, _ => none
  | b :: rest, shift, val =>
      let val := if shift < 64 then val ||| sizeT ((b &&& 0x7F).toNat <<< shift) else val
      if b &&& 0x80 = 0 then some (val, 1)
      else if 70 < shift + 7 then none
      else (varintLoop rest (shift + 7) val).map fun (val, taken) => (val, taken + 1)

def readVarint (d : Bytes) (pos : Nat) : Option (Nat × Nat) :=
  (varintLoop (d.drop pos) 0 0).map fun (val, taken) => (val, pos + taken)

inductive Payload where
  | varint (value : Nat)
  | bytes (start len : Nat)
  | fixed
  deriving DecidableEq, Repr

/-- One field: its number as the code narrows it, its payload, and where the
next field starts. -/
structure Field where
  number : Nat
  payload : Payload
  next : Nat
  deriving DecidableEq, Repr

/-- The conversion `int(tag >> 3)`, as the unsigned 32-bit pattern. -/
def fieldNumber (tag : Nat) : Nat := tag / 8 % 2 ^ 32

/-- What a wire type asks for; `none` for a type the loops do not know. -/
def readPayload (d : Bytes) (number wire pos : Nat) : Option Field :=
  match wire with
  | 0 => do
    let (value, pos) ← readVarint d pos
    some ⟨number, .varint value, pos⟩
  | 2 => do
    let (len, pos) ← readVarint d pos
    if d.length < sizeT (pos + len) then none
    else some ⟨number, .bytes pos len, sizeT (pos + len)⟩
  | 1 => some ⟨number, .fixed, sizeT (pos + 8)⟩
  | 5 => some ⟨number, .fixed, sizeT (pos + 4)⟩
  | _ => none

/-- The part that the three loops share; `none` is their `break`. -/
def readField (d : Bytes) (pos : Nat) : Option Field := do
  let (tag, pos) ← readVarint d pos
  readPayload d (fieldNumber tag) (tag % 8) pos

/-- `d.subspan(start, len)`, `none` where its precondition fails.  The greatest
`size_t` is `std::dynamic_extent` and stands for the rest of the span. -/
def subspan (d : Bytes) (start len : Nat) : Option Bytes :=
  if len = 2 ^ 64 - 1 then some (d.drop start)
  else if start + len ≤ d.length then some ((d.drop start).take len)
  else none

/-- How the three loops share an iteration: it leaves the loop, passes a field,
takes the bytes of the field with the number it looks for, or asks for bytes
outside the buffer.  The nested loop looks for none. -/
inductive Visit where
  | stop
  | skip (field : Field)
  | enter (field : Field) (sub : Bytes)
  | fault
  deriving DecidableEq, Repr

def visit (d : Bytes) (target : Option Nat) (pos : Nat) : Visit :=
  if d.length ≤ pos then .stop
  else
    match readField d pos with
    | none => .stop
    | some field =>
        match field.payload with
        | .bytes start len =>
            if target = some field.number then
              match subspan d start len with
              | none => .fault
              | some sub => .enter field sub
            else .skip field
        | _ => .skip field

def innerSsrc (inner : Bytes) : Option UInt32 := do
  let (tag, pos) ← readVarint inner 0
  if tag % 8 = 0 ∧ tag / 8 = 1 then
    let (ssrc, _) ← readVarint inner pos
    some (UInt32.ofNat ssrc)
  else none

def ssrcStep (d : Bytes) (target pos : Nat) : Iteration Nat (Option UInt32) :=
  match visit d (some target) pos with
  | .stop => .done none
  | .skip field => .next field.next
  | .enter field inner =>
      match innerSsrc inner with
      | some ssrc => .done (some ssrc)
      | none => .next field.next
  | .fault => .fault

def ssrcField (isVideo : Bool) : Nat := if isVideo then 5 else 3

def recordField (dims : CanvasDims) : Field → CanvasDims
  | ⟨4, .varint value, _⟩ => { dims with w := UInt32.ofNat value }
  | ⟨5, .varint value, _⟩ => { dims with h := UInt32.ofNat value }
  | ⟨6, .varint value, _⟩ => { dims with tiles := UInt32.ofNat value }
  | ⟨7, .varint value, _⟩ => { dims with ltrp := (BitVec.ofNat 32 value).toInt }
  | _ => dims

/-- Where `extract_canvas_dims` is: at a field of the blob, or inside the message
`sub` of the field that starts at `pos`, which the blob's next field follows. -/
inductive CanvasState where
  | fields (pos : Nat) (dims : CanvasDims)
  | message (pos next : Nat) (sub : Bytes) (sp : Nat) (dims : CanvasDims)
  deriving DecidableEq, Repr

def canvasStep (d : Bytes) : CanvasState → Iteration CanvasState CanvasDims
  | .fields pos dims =>
      match visit d (some 5) pos with
      | .stop => .done dims
      | .skip field => .next (.fields field.next dims)
      | .enter field sub => .next (.message pos field.next sub 0 dims)
      | .fault => .fault
  | .message pos next sub sp dims =>
      match visit sub none sp with
      | .skip field => .next (.message pos next sub field.next (recordField dims field))
      | _ => .next (.fields next dims)

end Offers

end Scshr.Protocol
