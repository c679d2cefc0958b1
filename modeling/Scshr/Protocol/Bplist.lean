import Scshr.Common.Bytes

/-! The binary property list reader (`protocol/bplist.cpp`).  The reader runs on
untrusted bytes, so an access outside the buffer, an iterator range that is
reversed or leaves it, and an element loop that outlives the buffer's length are
outcomes of the model rather than things it cannot express. -/
namespace Scshr.Protocol.Bplist

open Common

/-- What the C++ reader must never do. -/
inductive Fault where
  | outOfBounds
  | badRange
  | runaway
  deriving DecidableEq, Repr

/-- `bplist::Value`.  A real keeps the width and the bits it was read from. -/
inductive Value where
  | null
  | bool (value : Bool)
  | int (value : Int)
  | real (width bits : Nat)
  | str (text : Bytes)
  | data (bytes : Bytes)
  | dict (entries : List (Bytes × Value))
  | array (items : List Value)

def Value.str? : Value → Option Bytes
  | .str text => some text
  | _ => none

def dictSet (key : Bytes) (value : Value) : List (Bytes × Value) → List (Bytes × Value)
  | [] => [(key, value)]
  | (other, old) :: rest =>
      if key = other then (key, value) :: rest
      else if key < other then (key, value) :: (other, old) :: rest
      else (other, old) :: dictSet key value rest

def int64 (value : Nat) : Int :=
  if value < 2 ^ 63 then value else (value : Int) - 2 ^ 64

/-- The local position of one object together with the reader's sticky `ok` flag. -/
structure Cursor where
  pos : Nat
  ok : Bool

/-- `none` is the code's `nullopt`: every caller passes it on, so the flag is
only kept next to a value. -/
abbrev Result (α : Type) := Option (α × Bool)

abbrev ObjectReader := Nat → Bool → Except Fault (Result Value)

def byteAt (d : Bytes) (pos : Nat) : Except Fault UInt8 :=
  match d[pos]? with
  | some byte => .ok byte
  | none => .error .outOfBounds

def bytesAt (d : Bytes) (pos count : Nat) : Except Fault Bytes :=
  if pos + count ≤ d.length then .ok ((d.drop pos).take count) else .error .outOfBounds

def range (d : Bytes) (first last : Nat) : Except Fault Bytes :=
  if first ≤ last ∧ last ≤ d.length then .ok ((d.drop first).take (last - first))
  else .error .badRange

/-- `read_int_at`: a field that does not fit clears `ok` and reads as zero. -/
def readIntAt (d : Bytes) (nbytes : Nat) (cursor : Cursor) : Except Fault (Nat × Cursor) :=
  if d.length < sizeT (cursor.pos + nbytes) then .ok (0, { cursor with ok := false })
  else do
    let field ← bytesAt d cursor.pos nbytes
    .ok (beNat field, { cursor with pos := cursor.pos + nbytes })

def lowNibble (marker : UInt8) : Nat := (marker &&& 0x0f).toNat
def highNibble (marker : UInt8) : Nat := (marker >>> 4).toNat

/-- `read_size`; `none` is its `false`. -/
def readSize (d : Bytes) (marker : UInt8) (cursor : Cursor) :
    Except Fault (Option (Nat × Cursor)) :=
  if lowNibble marker ≠ 0x0f then .ok (some (lowNibble marker, cursor))
  else if d.length ≤ cursor.pos then .ok none
  else do
    let m ← byteAt d cursor.pos
    if highNibble m ≠ 1 then .ok none
    else if 8 < 2 ^ lowNibble m then .ok none
    else
      let (size, cursor) ← readIntAt d (2 ^ lowNibble m) { cursor with pos := cursor.pos + 1 }
      .ok (if cursor.ok then some (size, cursor) else none)

/-- `if (!read_size(pos, marker, n) || pos + n * width > d.size()) return nullopt;`
in front of every sized object.  `wrap` is what the sum is reduced by: the code
computes in `sizeT`. -/
def withSize {α : Type} (wrap : Nat → Nat) (d : Bytes) (marker : UInt8) (width : Nat)
    (cursor : Cursor) (body : Nat → Cursor → Except Fault (Result α)) : Except Fault (Result α) :=
  match readSize d marker cursor with
  | .error fault => .error fault
  | .ok none => .ok none
  | .ok (some (n, cursor)) =>
      if d.length < wrap (cursor.pos + n * width) then .ok none else body n cursor

/-- The UTF-8 bytes pushed for one UTF-16 unit; surrogates are not combined. -/
def utf8 (c : Nat) : Bytes :=
  if c < 0x80 then [UInt8.ofNat c]
  else if c < 0x800 then [UInt8.ofNat (0xC0 ||| c >>> 6), UInt8.ofNat (0x80 ||| c &&& 0x3F)]
  else [UInt8.ofNat (0xE0 ||| c >>> 12), UInt8.ofNat (0x80 ||| c >>> 6 &&& 0x3F),
    UInt8.ofNat (0x80 ||| c &&& 0x3F)]

/-- The loop of a UTF-16 string.  The first argument of this and of the
following loops counts the iterations that are left before the loop has run
once per byte of the buffer. -/
def utf16 (d : Bytes) : Nat → Nat → Nat → Except Fault Bytes
  | _, 0, _ => .ok []
  | 0, _ + 1, _ => .error .runaway
  | fuel + 1, n + 1, pos => do
      let high ← byteAt d pos
      let low ← byteAt d (pos + 1)
      let rest ← utf16 d fuel n (pos + 2)
      .ok (utf8 (be16 high low) ++ rest)

def elements (read : ObjectReader) (d : Bytes) (refSize : Nat) :
    Nat → Nat → Cursor → Except Fault (Result (List Value))
  | _, 0, cursor => .ok (some ([], cursor.ok))
  | 0, _ + 1, _ => .error .runaway
  | fuel + 1, n + 1, cursor => do
      let (ref, cursor) ← readIntAt d refSize cursor
      match ← read ref cursor.ok with
      | none => .ok none
      | some (value, ok) =>
          match ← elements read d refSize fuel n { cursor with ok } with
          | none => .ok none
          | some (values, ok) => .ok (some (value :: values, ok))

/-- The `krefs` and the `vrefs` loop of a dictionary; neither looks at `ok`. -/
def references (d : Bytes) (refSize : Nat) :
    Nat → Nat → Cursor → Except Fault (List Nat × Cursor)
  | _, 0, cursor => .ok ([], cursor)
  | 0, _ + 1, _ => .error .runaway
  | fuel + 1, n + 1, cursor => do
      let (ref, cursor) ← readIntAt d refSize cursor
      let (refs, cursor) ← references d refSize fuel n cursor
      .ok (ref :: refs, cursor)

def dictReferences (d : Bytes) (refSize n : Nat) (cursor : Cursor) :
    Except Fault (List Nat × List Nat × Bool) := do
  let (krefs, cursor) ← references d refSize d.length n cursor
  let (vrefs, cursor) ← references d refSize d.length n cursor
  .ok (krefs, vrefs, cursor.ok)

/-- The third loop of a dictionary: a key that is no string ends it. -/
def entries (read : ObjectReader) :
    List Nat → List Nat → Bool → List (Bytes × Value) →
      Except Fault (Result (List (Bytes × Value)))
  | kref :: krefs, vref :: vrefs, ok, dict => do
      match ← read kref ok with
      | none => .ok none
      | some (k, ok) =>
          match k.str? with
          | none => .ok none
          | some key =>
              match ← read vref ok with
              | none => .ok none
              | some (value, ok) => entries read krefs vrefs ok (dictSet key value dict)
  | _, _, ok, dict => .ok (some (dict, ok))

structure Reader where
  d : Bytes
  offsets : List Nat
  refSize : Nat
  one_le_refSize : 1 ≤ refSize
  refSize_le : refSize ≤ 8

def Result.map {α β : Type} (f : α → β) (result : Result α) : Result β :=
  Option.map (fun (value, ok) => (f value, ok)) result

inductive Kind where
  | simple
  | int
  | real
  | data
  | ascii
  | utf16
  | array
  | dict
  | other
  deriving DecidableEq, Repr

def kind (marker : UInt8) : Kind :=
  match highNibble marker with
  | 0x0 => .simple
  | 0x1 => .int
  | 0x2 => .real
  | 0x4 => .data
  | 0x5 => .ascii
  | 0x6 => .utf16
  | 0xA => .array
  | 0xD => .dict
  | _ => .other

/-- The `switch` itself, for the object whose marker has just been read.  The
code is the case `wrap = sizeT`; with `wrap = id` the ends of strings are exact. -/
def readBody (wrap : Nat → Nat) (reader : Reader) (read : ObjectReader) (marker : UInt8)
    (cursor : Cursor) : Except Fault (Result Value) :=
  let d := reader.d
  match kind marker with
  | .simple =>
      let value : Value :=
        if marker = 0x08 then .bool false else if marker = 0x09 then .bool true else .null
      .ok (some (value, cursor.ok))
  | .int =>
      if 8 < 2 ^ lowNibble marker then .ok none
      else do
        let (value, cursor) ← readIntAt d (2 ^ lowNibble marker) cursor
        .ok (if cursor.ok then some (.int (int64 value), cursor.ok) else none)
  | .real =>
      if 2 ^ lowNibble marker ≠ 4 ∧ 2 ^ lowNibble marker ≠ 8 then .ok none
      else do
        -- unlike the integer case, the flag is not looked at here
        let (bits, cursor) ← readIntAt d (2 ^ lowNibble marker) cursor
        .ok (some (.real (2 ^ lowNibble marker) bits, cursor.ok))
  | .data => withSize wrap d marker 1 cursor fun n cursor => do
      let bytes ← range d cursor.pos (wrap (cursor.pos + n))
      .ok (some (.data bytes, cursor.ok))
  | .ascii => withSize wrap d marker 1 cursor fun n cursor => do
      let text ← range d cursor.pos (wrap (cursor.pos + n))
      .ok (some (.str text, cursor.ok))
  | .utf16 => withSize wrap d marker 2 cursor fun n cursor => do
      let text ← utf16 d d.length n cursor.pos
      .ok (some (.str text, cursor.ok))
  | .array => withSize sizeT d marker reader.refSize cursor fun n cursor =>
      Result.map .array <$> elements read d reader.refSize d.length n cursor
  | .dict => withSize sizeT d marker (2 * reader.refSize) cursor fun n cursor => do
      let (krefs, vrefs, ok) ← dictReferences d reader.refSize n cursor
      Result.map .dict <$> entries read krefs vrefs ok []
  | .other => .ok none

/-- `read_object`.  The first argument is what is left of the 32 nested calls. -/
def readObject (wrap : Nat → Nat) (reader : Reader) : Nat → ObjectReader
  | 0, _, _ => .ok none
  | depth + 1, ref, ok =>
      match reader.offsets[ref]? with
      | none => .ok none
      | some pos =>
          if reader.d.length ≤ pos then .ok none
          else do
            let marker ← byteAt reader.d pos
            readBody wrap reader (readObject wrap reader depth) marker ⟨pos + 1, ok⟩

def readOffsets (d : Bytes) (offSize : Nat) : Nat → Cursor → Except Fault (Option (List Nat))
  | 0, _ => .ok (some [])
  | num + 1, cursor => do
      let (offset, cursor) ← readIntAt d offSize cursor
      if !cursor.ok then .ok none
      else
        match ← readOffsets d offSize num cursor with
        | none => .ok none
        | some offsets => .ok (some (offset :: offsets))

/-- `load` up to its last line: the checked trailer, the offset table, and the
reference of the top object. -/
def openPlist (data : Bytes) : Except Fault (Option (Reader × Nat)) :=
  if data.length < 8 + 32 then .ok none
  else do
    let magic ← bytesAt data 0 7
    -- "bplist0"
    if magic ≠ [0x62, 0x70, 0x6c, 0x69, 0x73, 0x74, 0x30] then .ok none
    else
      let tr := data.length - 32
      let offSize := (← byteAt data (tr + 6)).toNat
      let refSize := (← byteAt data (tr + 7)).toNat
      let num := beNat (← bytesAt data (tr + 8) 8)
      let top := beNat (← bytesAt data (tr + 16) 8)
      let tableOff := beNat (← bytesAt data (tr + 24) 8)
      if hsizes : (1 ≤ refSize ∧ refSize ≤ 8) ∧ 1 ≤ offSize ∧ offSize ≤ 8 ∧ num ≠ 0 ∧
          num ≤ 100000 then
        if data.length ≤ tableOff ∨ data.length - 32 < sizeT (tableOff + num * offSize) then
          .ok none
        else if num ≤ top then .ok none
        else
          match ← readOffsets data offSize num ⟨tableOff, true⟩ with
          | none => .ok none
          | some offsets =>
              if offsets.any fun offset => decide (tableOff ≤ offset) then .ok none
              else .ok (some (⟨data, offsets, refSize, hsizes.1.1, hsizes.1.2⟩, top))
      else .ok none

def load (data : Bytes) : Except Fault (Option Value) := do
  match ← openPlist data with
  | none => .ok none
  | some (reader, top) =>
      let result ← readObject sizeT reader 32 top true
      .ok (Option.map Prod.fst result)

end Scshr.Protocol.Bplist
