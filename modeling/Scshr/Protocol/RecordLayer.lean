import Scshr.Common.Bytes
import Scshr.Lib.Cbc

/-! The enc1103 record layer (`protocol/record_layer.cpp`).  AES under the
session key and SHA-1 come from libcrypto and are parameters; the chaining, the
framing and the counter window are modelled as the code has them. -/
namespace Scshr.Protocol

open Common Lib

abbrev Block := Vector UInt8 16

def xorBlock (block chain : Block) : Block :=
  Vector.zipWith (· ^^^ ·) block chain

variable {data record rest : Bytes}

theorem xorBlock_xorBlock (block chain : Block) :
    xorBlock (xorBlock block chain) chain = block := by
  ext i hi
  simp only [xorBlock, Vector.getElem_zipWith, UInt8.xor_assoc, UInt8.xor_self, UInt8.xor_zero]

structure Crypto where
  aes : Block → Block
  aesInverse : Block → Block
  aesInverse_aes : ∀ block, aesInverse (aes block) = block
  sha1 : Bytes → Vector UInt8 20

def Crypto.cipher (crypto : Crypto) : BlockCipher Block where
  enc := crypto.aes
  dec := crypto.aesInverse
  mask := xorBlock
  dec_enc := crypto.aesInverse_aes
  mask_mask := xorBlock_xorBlock

def macLen : Nat := 20
def blockLen : Nat := 16
def decryptCounterWindow : UInt32 := 6

structure RecordLayer where
  encChain : Block
  decChain : Block
  encCtr : UInt32
  decCtr : UInt32
  deriving DecidableEq

/-- Same key and IV in both directions, independent chains. -/
def RecordLayer.new (iv : Block) : RecordLayer := ⟨iv, iv, 0, 0⟩

def padLen (size : Nat) : Nat :=
  (blockLen - (2 + size + macLen) % blockLen) % blockLen

/-- Length field, plaintext and zero filler: the part under the tag. -/
def framedBody (pt : Bytes) : Bytes :=
  putBe16 pt.length ++ pt ++ List.replicate (padLen pt.length) 0

def tag (crypto : Crypto) (counter : UInt32) (body : Bytes) : Bytes :=
  (crypto.sha1 (putBe32 counter ++ body)).toList

def framed (crypto : Crypto) (counter : UInt32) (pt : Bytes) : Bytes :=
  framedBody pt ++ tag crypto counter (framedBody pt)

namespace RecordLayer

def encryptMessage (crypto : Crypto) (layer : RecordLayer) (pt : Bytes) : Bytes × RecordLayer :=
  let plain := framed crypto layer.encCtr pt
  let coded := Cbc.encryptBytes crypto.cipher layer.encChain plain
  (putBe16 plain.length ++ coded.1,
    { layer with encChain := coded.2, encCtr := layer.encCtr + 1 })

/-- The counters tried for one record: `for (c = lo; c < ctr + 6; ++c)` with
the upper bound computed in 32 bits. -/
def counterWindow (counter : UInt32) : List UInt32 :=
  let lo := if counter > 0 then counter - 1 else 0
  let hi := counter + decryptCounterWindow
  (List.range' lo.toNat (hi.toNat - lo.toNat)).map UInt32.ofNat

def plaintext (crypto : Crypto) (layer : RecordLayer) (ct : Bytes) : Bytes :=
  (Cbc.decryptBytes crypto.cipher layer.decChain ct).1

def bodyOf (pt : Bytes) : Bytes := pt.take (pt.length - macLen)
def macOf (pt : Bytes) : Bytes := pt.drop (pt.length - macLen)

def matchingCounter (crypto : Crypto) (counter : UInt32) (pt : Bytes) : Option UInt32 :=
  (counterWindow counter).find? fun candidate => tag crypto candidate (bodyOf pt) == macOf pt

def decryptMessage (crypto : Crypto) (layer : RecordLayer) (ct : Bytes) :
    Option Bytes × RecordLayer :=
  if ct = [] ∨ ct.length % blockLen ≠ 0 then (none, layer)
  else
    let pt := plaintext crypto layer ct
    let consumed : RecordLayer :=
      { layer with
        decChain := (Cbc.decryptBytes crypto.cipher layer.decChain ct).2
        decCtr := layer.decCtr + 1 }
    if pt.length ≤ macLen then (some pt, consumed)
    else
      match matchingCounter crypto layer.decCtr pt with
      | none => (none, consumed)
      | some counter =>
          let inner := be16At pt 0
          (if 2 + inner > (bodyOf pt).length then none else some ((pt.drop 2).take inner),
            { consumed with decCtr := counter + 1 })

end RecordLayer

/-- The record at the front of the stream and what follows it, when it is complete. -/
def nextRecord : Bytes → Option (Bytes × Bytes)
  | high :: low :: rest =>
      let len := be16 high low
      if len = 0 ∨ len % blockLen ≠ 0 ∨ rest.length < len then none
      else some (rest.take len, rest.drop len)
  | _ => none

theorem nextRecord_length (h : nextRecord data = some (record, rest)) :
    data.length = 2 + record.length + rest.length ∧ record ≠ [] ∧
      record.length % blockLen = 0 := by
  unfold nextRecord at h
  split at h
  · rename_i high low tail
    dsimp only at h
    split at h
    · cases h
    · rename_i hvalid
      obtain ⟨rfl, rfl⟩ := Prod.mk.inj (Option.some_inj.mp h)
      obtain ⟨hzero, hblock, hshort⟩ : be16 high low ≠ 0 ∧ be16 high low % blockLen = 0 ∧
          be16 high low ≤ tail.length := by
        simpa [not_or] using hvalid
      have hlength : (tail.take (be16 high low)).length = be16 high low := by
        rw [List.length_take]
        omega
      refine ⟨?_, ?_, by rw [hlength, hblock]⟩
      · rw [hlength, List.length_drop, List.length_cons, List.length_cons]
        omega
      · apply List.ne_nil_of_length_pos
        omega
  · cases h

/-- The records `decrypt_stream` cuts off, and the bytes it leaves. -/
def wireRecords (data : Bytes) : List Bytes × Bytes :=
  match _hnext : nextRecord data with
  | none => ([], data)
  | some (record, rest) =>
      let tail := wireRecords rest
      (record :: tail.1, tail.2)
termination_by data.length
decreasing_by have := (nextRecord_length _hnext).1; omega

theorem wireRecords_of_none (h : nextRecord data = none) : wireRecords data = ([], data) := by
  rw [wireRecords]
  split
  · rfl
  · rename_i hnext
    rw [h] at hnext
    cases hnext

theorem wireRecords_of_next (h : nextRecord data = some (record, rest)) :
    wireRecords data = (record :: (wireRecords rest).1, (wireRecords rest).2) := by
  rw [wireRecords]
  split
  · rename_i hnext
    rw [h] at hnext
    cases hnext
  · rename_i hnext
    rw [h] at hnext
    cases hnext
    rfl

/-- A message handed out by the stream decoder, with the record it came from
and the receiver at that moment. -/
structure Delivery where
  layer : RecordLayer
  record : Bytes
  message : Bytes

def receive (crypto : Crypto) (layer : RecordLayer) : List Bytes → List Delivery × RecordLayer
  | [] => ([], layer)
  | record :: rest =>
      let (message, next) := layer.decryptMessage crypto record
      let tail := receive crypto next rest
      (match message with
        | some message => ⟨layer, record, message⟩ :: tail.1
        | none => tail.1,
        tail.2)

structure StreamResult where
  delivered : List Delivery
  left : Bytes
  layer : RecordLayer

def StreamResult.out (result : StreamResult) : List Bytes := result.delivered.map Delivery.message

/-- `decrypt_stream`: the lengths alone decide how the stream is cut, so the
records are cut off first and decrypted then.  The unconsumed bytes are returned
instead of the consumed count. -/
def decryptStream (crypto : Crypto) (layer : RecordLayer) (data : Bytes) : StreamResult :=
  let cut := wireRecords data
  let received := receive crypto layer cut.1
  ⟨received.1, cut.2, received.2⟩

end Scshr.Protocol
