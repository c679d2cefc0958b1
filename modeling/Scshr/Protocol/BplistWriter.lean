import Scshr.Lib.Decimal
import Scshr.Lib.Placed
import Scshr.Protocol.Bplist

/-! The binary property list writer (`bplist::dump`).  Scalars are kept once, by a text that
spells their type and value, and keys and values share that table. -/
namespace Scshr.Protocol.Bplist

open Common Lib

inductive Scalar where
  | str (text : Bytes)
  | data (bytes : Bytes)
  | int (value : Int)
  deriving DecidableEq

def Scalar.value : Scalar → Value
  | .str text => .str text
  | .data bytes => .data bytes
  | .int value => .int value

/-- A `Dict` of scalars; the `std::map` keeps its keys ascending. -/
structure FlatDict where
  entries : List (Bytes × Scalar)
  ascending : entries.Pairwise fun left right => left.1 < right.1

def FlatDict.value (dict : FlatDict) : Value :=
  .dict (dict.entries.map fun entry => (entry.1, entry.2.value))

def toDecimal (value : Int) : Bytes :=
  if value < 0 then 0x2d :: Decimal.write value.natAbs else Decimal.write value.natAbs

/-- `Flat::repr_of`; the tags are `s:`, `b:` and `i:`. -/
def Scalar.repr : Scalar → Bytes
  | .str text => 0x73 :: 0x3a :: text
  | .data bytes => 0x62 :: 0x3a :: bytes
  | .int value => 0x69 :: 0x3a :: toDecimal value

def addScalar (objs : List Scalar) (scalar : Scalar) : List Scalar :=
  if objs.any fun obj => obj.repr = scalar.repr then objs else objs ++ [scalar]

def flatten (dict : FlatDict) : List Scalar :=
  (dict.entries.map fun entry => Scalar.str entry.1) ++ dict.entries.map Prod.snd
    |>.foldl addScalar []

def refOf (objs : List Scalar) (scalar : Scalar) : Nat :=
  objs.findIdx (fun obj => obj.repr = scalar.repr) + 1

def writeSize (token : UInt8) (size : Nat) : Bytes :=
  if size < 15 then [token ||| UInt8.ofNat size]
  else if size < 256 then (token ||| 0x0f) :: 0x10 :: putBe 1 size
  else if size < 65536 then (token ||| 0x0f) :: 0x11 :: putBe 2 size
  else (token ||| 0x0f) :: 0x12 :: putBe 4 size

/-- The bits a lead byte gives, and the length it announces. -/
def leadBits (c : Nat) : Nat × Nat :=
  if c < 0x80 then (c, 1)
  else if c &&& 0xE0 = 0xC0 then (c &&& 0x1F, 2)
  else if c &&& 0xF0 = 0xE0 then (c &&& 0x0F, 3)
  else (c &&& 0x07, 4)

def utf16Units (cp : Nat) : List Nat :=
  if 0x10000 ≤ cp then [0xD800 + (cp - 0x10000) >>> 10, 0xDC00 + ((cp - 0x10000) &&& 0x3FF)]
  else [cp]

/-- The UTF-8 loop of `write_string`; a sequence cut off at the end takes what is there. -/
def toUtf16 : Bytes → List Nat
  | [] => []
  | c :: rest =>
    let more := (leadBits c.toNat).2 - 1
    let cp := (rest.take more).foldl (fun cp byte => cp <<< 6 ||| (byte.toNat &&& 0x3F))
      (leadBits c.toNat).1
    utf16Units cp ++ toUtf16 (rest.drop more)
termination_by text => text.length
decreasing_by simp only [List.length_drop, List.length_cons]; omega

def writeString (text : Bytes) : Bytes :=
  if text.all fun c => c < 0x80 then writeSize 0x50 text.length ++ text
  else writeSize 0x60 (toUtf16 text).length ++ (toUtf16 text).flatMap (putBe 2)

def writeInt (x : Int) : Bytes :=
  if 0 ≤ x ∧ x < 2 ^ 8 then 0x10 :: putBe 1 x.toNat
  else if 0 ≤ x ∧ x < 2 ^ 16 then 0x11 :: putBe 2 x.toNat
  else if 0 ≤ x ∧ x < 2 ^ 32 then 0x12 :: putBe 4 x.toNat
  else 0x13 :: putBe 8 (x % 2 ^ 64).toNat

def writeScalar : Scalar → Bytes
  | .str text => writeString text
  | .data bytes => writeSize 0x40 bytes.length ++ bytes
  | .int x => writeInt x

def writeDict (refSize : Nat) (objs : List Scalar) (dict : FlatDict) : Bytes :=
  writeSize 0xD0 dict.entries.length ++
    ((dict.entries.flatMap fun entry => putBe refSize (refOf objs (.str entry.1))) ++
      dict.entries.flatMap fun entry => putBe refSize (refOf objs entry.2))

def widthFor (bound : Nat) : Nat := if bound < 256 then 1 else if bound < 65536 then 2 else 4

def objects (dict : FlatDict) : List Bytes :=
  let objs := flatten dict
  writeDict (widthFor (objs.length + 1)) objs dict :: objs.map writeScalar

def magic : Bytes := [0x62, 0x70, 0x6c, 0x69, 0x73, 0x74, 0x30, 0x30]

def trailer (offSize refSize num tableOff : Nat) : Bytes :=
  List.replicate 6 0 ++ (UInt8.ofNat offSize :: UInt8.ofNat refSize ::
    (putBe 8 num ++ (putBe 8 0 ++ putBe 8 tableOff)))

def dump (dict : FlatDict) : Bytes :=
  let objs := objects dict
  let tableOff := 8 + objs.flatten.length
  magic ++ (objs.flatten ++ ((offsetsFrom 8 objs).flatMap (putBe (widthFor tableOff)) ++
    trailer (widthFor tableOff) (widthFor objs.length) objs.length tableOff))

end Scshr.Protocol.Bplist
