import Scshr.Protocol.RecordStream
import Scshr.Session.ClipboardSync

/-! From the bytes of the control connection to the local clipboard. -/
namespace Scshr.Session

open Common Protocol List

/-- `tcp_thread` on the chunks it reads, as far as the clipboard goes. -/
def clipboardStream (inflate : Bytes → Option Bytes) (clipboard : Bool) (crypto : Crypto)
    (layer : RecordLayer) (chunks : List Bytes) (s : Clipboards) : Clipboards :=
  let fed := Reassembler.feedAll (tcpFeed clipboard) .idle (tcpLoop crypto layer [] chunks).out
  (fed.1.filterMap id).foldl (Clipboards.handleClipboardSend inflate) s

/-- Texts in records, the messages split among them and the records among the chunks in any
way, are the events of the two clipboards. -/
theorem clipboardStream_receives (z : SyncFlush) (clipboard : Bool) (crypto : Crypto)
    (sender receiver : RecordLayer) (transfers : List Transfer) (chunks : List Bytes)
    (s : Clipboards) (splits : ∀ t ∈ transfers, t.Splits z.deflate)
    (genuine : Genuine crypto sender receiver (transfers.flatMap Transfer.fragments))
    (fit : CountersFit sender (transfers.flatMap Transfer.fragments))
    (wire : chunks.flatten =
      (sendAll crypto sender (transfers.flatMap Transfer.fragments)).1) :
    clipboardStream z.inflate clipboard crypto receiver chunks s =
      (transfers.map fun t => .receive t.text).foldl Clipboards.step s := by
  have read : (tcpLoop crypto receiver [] chunks).out = transfers.flatMap Transfer.fragments := by
    rw [tcpLoop_eq crypto chunks receiver [] rfl, nil_append, wire]
    exact (genuine.stream_read fit).1
  rw [clipboardStream, read, feedAll_transfers (feeds_tcpFeed clipboard) z transfers splits]
  clear read genuine fit wire
  induction transfers generalizing s with
  | nil => rfl
  | cons t transfers ih =>
    rw [forall_mem_cons] at splits
    have text := clipboardText_build z t.text splits.1.short
    have first : s.handleClipboardSend z.inflate (buildClipboardSend z.deflate t.text) =
        s.receive t.text := by
      rw [Clipboards.handleClipboardSend, text]
    simpa [Transfer.results, Clipboards.step, first] using ih (s.receive t.text) splits.2

/-- The text `a` in two records, read in one chunk. -/
theorem clipboardStream_receives_cut :
    let t := Transfer.cut storing.deflate [0x61] 20
    clipboardStream storing.inflate true clearCrypto freshLayer
      [(sendAll clearCrypto freshLayer t.fragments).1] (.start none) =
        (Clipboards.start none).receive [0x61] := by
  intro t
  have splits : t.Splits storing.deflate := by
    refine Transfer.cut_splits _ _ 20 (by decide) (by decide) ?_
    rw [buildClipboardSend_length]
    decide
  refine clipboardStream_receives storing true clearCrypto freshLayer freshLayer [t] _
    (.start none) (by simpa) ⟨⟨rfl, rfl⟩, by decide +kernel, ?_⟩
    (by unfold CountersFit; decide +kernel) (by simp)
  exact ⟨by unfold TagsDiffer; decide +kernel, by unfold TagsDiffer; decide +kernel, trivial⟩

end Scshr.Session
