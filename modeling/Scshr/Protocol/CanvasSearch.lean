import Mathlib.Data.List.Induction
import Scshr.Protocol.OfferIdentity

/-! `extract_canvas_dims`: the search for a property list of unknown length in an answer, and
the walk over the blob it holds. -/
namespace Scshr.Protocol.Offers

open Common Lib Bplist
open List hiding after range

def bplistTag : Bytes := [0x62, 0x70, 0x6c, 0x69, 0x73, 0x74]

def encodeAll (fields : List ProtoField) : Bytes := fields.flatMap ProtoField.encode

section Walk

variable {d : Bytes}

def Passed (fields : List ProtoField) : Prop :=
  ∀ field ∈ fields, ∀ body, field.payload = .bytes body → field.number ≠ 5

def canvasField (sub : List ProtoField) : ProtoField := ⟨5, by decide, .bytes (encodeAll sub)⟩

def varintOf (number : Nat) (field : ProtoField) : Option UInt64 :=
  match field.payload with
  | .varint value => if field.number = number then some value else none
  | _ => none

def lastVarint (number : Nat) (fields : List ProtoField) : Option UInt64 :=
  fields.reverse.findSome? (varintOf number)

end Walk

section Search

variable {msg : Bytes} {place len size : Nat}

variable {rest : Bytes}

end Search

/-- An answer with a property list somewhere in it: what stands around the list, the list
itself, and the fields of the blob in it around and in the canvas.  The list is any byte
string that starts like one: the dictionary it was dumped from may be nested. -/
structure Answer (z : Zlib) where
  front : Bytes
  plist : Bytes
  back : Bytes
  before : List ProtoField
  sub : List ProtoField
  after : List ProtoField
  w : UInt32
  h : UInt32
  tiles : UInt32
  starts : (front ++ (plist ++ back)).head? = some 0
  tag : bplistTag <+: plist
  once : ∀ i, bplistTag <+: (front ++ (plist ++ back)).drop i → i = front.length
  prefixes : ∀ len < plist.length, load (plist.take len) = .ok none
  short : (encodeAll (before ++ canvasField sub :: after)).length < 2 ^ 63
  one : Passed before ∧ Passed after
  width : lastVarint 4 sub = some w.toUInt64 ∧ w ≠ 0
  height : lastVarint 5 sub = some h.toUInt64 ∧ h ≠ 0
  tileCount : (lastVarint 6 sub).getD 0 = tiles.toUInt64

namespace Answer

variable {z : Zlib} (answer : Answer z)

def msg : Bytes := answer.front ++ (answer.plist ++ answer.back)

def blob : Bytes := encodeAll (answer.before ++ canvasField answer.sub :: answer.after)

/-- `load` reads a dictionary with a blob, and in it the canvas of the answer. -/
def Shows (piece : Bytes) : Prop :=
  ∃ value d dims, load piece = .ok (some value) ∧ mediaBlob z value = some d ∧
    Returns (canvasStep d) (.fields 0 { ltrp := -1 }) dims ∧
    dims.w = answer.w ∧ dims.h = answer.h ∧ dims.tiles = answer.tiles

end Answer

section Samples

variable {plist : Bytes} {w h : UInt32}

end Samples

end Scshr.Protocol.Offers
