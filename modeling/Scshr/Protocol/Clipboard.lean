import Mathlib.Data.Set.Finite.List
import Scshr.Protocol.RecordFraming

/-! The clipboard message (`protocol/clipboard.cpp`) as a plaintext of the
record layer.  The compressor is miniz and stays a parameter. -/
namespace Scshr.Protocol

open Common Lib List

def msgClipboardSend : UInt8 := 0x1f

def plainTextUti : Bytes :=
  "public.utf8-plain-text".toList.map fun char => UInt8.ofNat char.toNat

def clipboardItems (text : Bytes) : Bytes :=
  putBe32 1 ++ putBe32 (UInt32.ofNat plainTextUti.length) ++ plainTextUti ++ putBe32 0 ++
    putBe32 0 ++ putBe32 (UInt32.ofNat text.length) ++ text

def buildClipboardSend (deflateSyncFlush : Bytes → Bytes) (text : Bytes) : Bytes :=
  let inner := clipboardItems text
  let comp := deflateSyncFlush inner
  [msgClipboardSend, 0, 0, 0] ++ putBe32 0 ++ putBe32 (UInt32.ofNat inner.length) ++
    putBe32 (UInt32.ofNat comp.length) ++ comp

/-- `Session::cut_text`: the plaintext handed to `send_ctrl`, if any. -/
def cutText (deflateSyncFlush : Bytes → Bytes) (text : Bytes) : Option Bytes :=
  if text = [] then none else some (buildClipboardSend deflateSyncFlush text)

theorem buildClipboardSend_length (deflate : Bytes → Bytes) (text : Bytes) :
    (buildClipboardSend deflate text).length = 16 + (deflate (clipboardItems text)).length := by
  simp [buildClipboardSend]
  omega

theorem clipboardItems_injective : Function.Injective clipboardItems := by
  intro left right heq
  have hlength : left.length = right.length := by
    have := congrArg List.length heq
    simpa [clipboardItems] using this
  exact (append_inj' heq hlength).2

/-- Record framing is exact for plaintexts of up to 65498 bytes, which leaves
65482 bytes of compressed clipboard, until the counter reaches its last six
values. -/
theorem record_framing_iff (crypto : Crypto) (deflate : Bytes → Bytes)
    (sender receiver : RecordLayer) (pt : Bytes) (hsync : InSync sender receiver)
    (htags : TagsDiffer crypto sender.encCtr pt) :
    (FramesExactly crypto sender receiver pt ↔
      pt.length ≤ 65498 ∧ sender.encCtr.toNat < 2 ^ 32 - 6) ∧
    ∀ text, cutText deflate text = some pt →
      (FramesExactly crypto sender receiver pt ↔
        (deflate (clipboardItems text)).length ≤ 65482 ∧ sender.encCtr.toNat < 2 ^ 32 - 6) := by
  have hiff := framesExactly_iff hsync htags
  refine ⟨hiff, fun text htext => ?_⟩
  unfold cutText at htext
  split at htext
  · cases htext
  · have hlength := buildClipboardSend_length deflate text
    rw [Option.some_inj.mp htext] at hlength
    rw [hiff, hlength]
    constructor
    · rintro ⟨hsize, hctr⟩
      exact ⟨by omega, hctr⟩
    · rintro ⟨hsize, hctr⟩
      exact ⟨by omega, hctr⟩

/-- A key event at counter five. -/
theorem record_framing_keyEvent :
    FramesExactly clearCrypto ⟨Vector.replicate 16 7, Vector.replicate 16 0, 5, 0⟩
      ⟨Vector.replicate 16 0, Vector.replicate 16 7, 0, 5⟩ [4, 1, 0, 0, 0, 0, 0, 0x61] :=
  (record_framing_iff clearCrypto id ⟨Vector.replicate 16 7, Vector.replicate 16 0, 5, 0⟩
    ⟨Vector.replicate 16 0, Vector.replicate 16 7, 0, 5⟩ [4, 1, 0, 0, 0, 0, 0, 0x61]
    ⟨rfl, rfl⟩ (by unfold TagsDiffer; decide +kernel)).1.mpr ⟨by decide, by decide⟩

/-- No lossless compressor keeps every clipboard text within the limit. -/
theorem longPlaintexts_misframed :
    ¬ FramesExactly clearCrypto (RecordLayer.new (Vector.replicate 16 0))
        (RecordLayer.new (Vector.replicate 16 0)) (List.replicate 65499 0x41) ∧
    ¬ ∃ deflate : Bytes → Bytes, Function.Injective deflate ∧
        ∀ text ≠ [], ∃ crypto sender receiver,
          FramesExactly crypto sender receiver (buildClipboardSend deflate text) := by
  constructor
  · intro h
    have hsize := h.size
    rw [length_replicate] at hsize
    omega
  · rintro ⟨deflate, hinjective, hall⟩
    have : Finite UInt8 := Finite.of_injective UInt8.toFin fun _ _ => UInt8.toFin_inj.mp
    -- the texts a, aa, aaa, … would have infinitely many short compressed forms
    let comp (count : Nat) : Bytes := deflate (clipboardItems (List.replicate (count + 1) 0x61))
    have hcomp : Function.Injective comp := by
      intro left right heq
      have htext := congrArg List.length (clipboardItems_injective (hinjective heq))
      simpa using htext
    have hshort : ∀ count, comp count ∈ {bytes : Bytes | bytes.length ≤ 65482} := by
      intro count
      obtain ⟨crypto, sender, receiver, h⟩ := hall (List.replicate (count + 1) 0x61) (by simp)
      have hsize := h.size
      rw [buildClipboardSend_length] at hsize
      exact Nat.le_of_add_le_add_left hsize
    exact Set.infinite_of_injective_forall_mem hcomp hshort (finite_length_le UInt8 65482)

end Scshr.Protocol
