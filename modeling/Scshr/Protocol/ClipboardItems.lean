import Scshr.Protocol.Clipboard

/-! Reading a clipboard message (`parse_send_header`, `parse_items` and `text_from_items`).
The items come out of the decompressor unchecked, so every read is bounded and a short one
leaves the reader where it was with its flag cleared. -/
namespace Scshr.Protocol

open Common List

structure ByteReader where
  rest : Bytes
  ok : Bool
  deriving DecidableEq

namespace ByteReader

def u32 (r : ByteReader) : UInt32 × ByteReader :=
  if r.rest.length < 4 then (0, { r with ok := false })
  else (be32At r.rest 0, { r with rest := r.rest.drop 4 })

def bytes (r : ByteReader) (n : Nat) : Bytes × ByteReader :=
  if r.rest.length < n then ([], { r with ok := false })
  else (r.rest.take n, { r with rest := r.rest.drop n })

def lp (r : ByteReader) : Bytes × ByteReader :=
  r.u32.2.bytes r.u32.1.toNat

theorem u32_putBe32 (value : UInt32) (rest : Bytes) (ok : Bool) :
    u32 ⟨putBe32 value ++ rest, ok⟩ = (value, ⟨rest, ok⟩) := by
  have long : ¬ (putBe32 value ++ rest).length < 4 := by
    rw [length_append, putBe32_length]
    omega
  have field : be32At (putBe32 value ++ rest) 0 = value := be32At_putBe32 [] value rest
  have left : (putBe32 value ++ rest).drop 4 = rest := drop_left' (putBe32_length value)
  unfold u32
  dsimp only
  rw [if_neg long, field, left]

theorem bytes_append (front rest : Bytes) (ok : Bool) :
    bytes ⟨front ++ rest, ok⟩ front.length = (front, ⟨rest, ok⟩) := by
  have long : ¬ (front ++ rest).length < front.length := by
    rw [length_append]
    omega
  unfold bytes
  dsimp only
  rw [if_neg long, take_left, drop_left]

theorem lp_prefixed (field rest : Bytes) (ok : Bool) (short : field.length < 2 ^ 32) :
    lp ⟨putBe32 (UInt32.ofNat field.length) ++ field ++ rest, ok⟩ = (field, ⟨rest, ok⟩) := by
  have size : (UInt32.ofNat field.length).toNat = field.length :=
    UInt32.toNat_ofNat_of_lt' short
  unfold lp
  rw [append_assoc, u32_putBe32]
  dsimp only
  rw [size, bytes_append]

end ByteReader

structure SendHeader where
  promise : UInt8
  reserved : UInt32
  uncompressed : UInt32
  compressed : UInt32
  deriving DecidableEq

def parseSendHeader (d : Bytes) : Option SendHeader :=
  if d.length < 16 ∨ d.getD 0 0 ≠ msgClipboardSend then none
  else some ⟨d.getD 2 0, be32At d 4, be32At d 8, be32At d 12⟩

structure Item where
  primaryUti : Bytes
  primaryData : Bytes
  aliases : List (Bytes × Bytes)
  deriving DecidableEq

/-- The inner loop of `parse_items`; the reader's flag ends it. -/
def parseAliases : Nat → ByteReader → List (Bytes × Bytes) × ByteReader
  | 0, r => ([], r)
  | n + 1, r =>
    if r.ok then
      let (an, r) := r.lp
      let (av, r) := r.lp
      let (others, r) := parseAliases n r
      ((an, av) :: others, r)
    else ([], r)

def parseItem (r : ByteReader) : Item × ByteReader :=
  let (uti, r) := r.lp
  let (_, r) := r.u32
  let (ac, r) := r.u32
  let (aliases, r) := parseAliases ac.toNat r
  let (data, r) := r.lp
  (⟨uti, data, aliases⟩, r)

/-- The outer loop; an item that was cut short is not kept. -/
def parseItemList : Nat → ByteReader → List Item
  | 0, _ => []
  | n + 1, r =>
    if r.ok then
      let (item, r) := parseItem r
      if r.ok then item :: parseItemList n r else []
    else []

def parseItems (d : Bytes) : List Item :=
  if d.length < 4 then []
  else
    let (count, r) := ByteReader.u32 ⟨d, true⟩
    parseItemList count.toNat r

def containsBytes (s sub : Bytes) : Bool := s.tails.any sub.isPrefixOf

def leadByte (mark bits : UInt32) : UInt8 := (mark ||| bits).toUInt8

def trailByte (bits : UInt32) : UInt8 := leadByte 0x80 (bits &&& 0x3F)

def utf8Of (cp : UInt32) : Bytes :=
  if cp < 0x80 then [cp.toUInt8]
  else if cp < 0x800 then [leadByte 0xC0 (cp >>> 6), trailByte cp]
  else if cp < 0x10000 then [leadByte 0xE0 (cp >>> 12), trailByte (cp >>> 6), trailByte cp]
  else [leadByte 0xF0 (cp >>> 18), trailByte (cp >>> 12), trailByte (cp >>> 6), trailByte cp]

/-- The units of a UTF-16 flavour; an odd last byte is dropped. -/
def utf16Units (bigEndian : Bool) : Bytes → List UInt32
  | a :: b :: rest =>
    UInt32.ofNat (if bigEndian then be16 a b else be16 b a) :: utf16Units bigEndian rest
  | _ => []

/-- A high surrogate takes the next unit with it, whatever that is. -/
def utf16Text : List UInt32 → Bytes
  | [] => []
  | [u] => utf8Of u
  | u :: next :: rest =>
    if 0xD800 ≤ u ∧ u ≤ 0xDBFF then
      let high : UInt32 := (u - 0xD800) <<< 10
      utf8Of (0x10000 + high + (next - 0xDC00)) ++ utf16Text rest
    else utf8Of u ++ utf16Text (next :: rest)

def latin1Text (data : Bytes) : Bytes :=
  data.flatMap fun c =>
    if c < 0x80 then [c] else [leadByte 0xC0 (c.toUInt32 >>> 6), trailByte c.toUInt32]

def Item.isPublicText (item : Item) : Bool :=
  (textBytes "public.").isPrefixOf item.primaryUti &&
    containsBytes item.primaryUti (textBytes "text")

def Item.publicText (item : Item) : Bytes :=
  if containsBytes item.primaryUti (textBytes "utf16") then
    utf16Text (utf16Units (containsBytes item.primaryUti (textBytes "external")) item.primaryData)
  else item.primaryData

def textFromItems (items : List Item) : Option Bytes :=
  match items.find? (·.primaryUti = plainTextUti) with
  | some item => some item.primaryData
  | none =>
    match items.find? Item.isPublicText with
    | some item => some item.publicText
    | none =>
      (items.find? (·.primaryUti = textBytes "com.apple.traditional-mac-plain-text")).map
        fun item => latin1Text item.primaryData

theorem parseItem_text (text : Bytes) (short : text.length < 2 ^ 32) :
    parseItem ⟨putBe32 (UInt32.ofNat plainTextUti.length) ++ plainTextUti ++
      (putBe32 0 ++ (putBe32 0 ++ (putBe32 (UInt32.ofNat text.length) ++ text ++ []))), true⟩ =
      (⟨plainTextUti, text, []⟩, ⟨[], true⟩) := by
  unfold parseItem
  rw [ByteReader.lp_prefixed plainTextUti _ true (by decide)]
  dsimp only
  rw [ByteReader.u32_putBe32]
  dsimp only
  rw [ByteReader.u32_putBe32, UInt32.toNat_zero]
  dsimp only [parseAliases]
  rw [ByteReader.lp_prefixed text [] true short]

theorem parseItems_clipboardItems (text : Bytes) (short : text.length < 2 ^ 32) :
    parseItems (clipboardItems text) = [⟨plainTextUti, text, []⟩] := by
  have split : clipboardItems text = putBe32 1 ++
      (putBe32 (UInt32.ofNat plainTextUti.length) ++ plainTextUti ++
        (putBe32 0 ++ (putBe32 0 ++ (putBe32 (UInt32.ofNat text.length) ++ text ++ [])))) := by
    unfold clipboardItems
    simp only [append_assoc, append_nil]
  have long : ¬ (clipboardItems text).length < 4 := by
    rw [split, length_append, putBe32_length]
    omega
  unfold parseItems
  rw [if_neg long, split, ByteReader.u32_putBe32]
  dsimp only
  rw [UInt32.toNat_one]
  dsimp only [parseItemList]
  rw [if_pos rfl, parseItem_text text short]
  rfl

theorem textFromItems_clipboardItems (text : Bytes) (short : text.length < 2 ^ 32) :
    textFromItems (parseItems (clipboardItems text)) = some text := by
  rw [parseItems_clipboardItems text short]
  simp [textFromItems]

end Scshr.Protocol
