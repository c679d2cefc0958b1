import Mathlib.Data.List.GetD
import Scshr.Protocol.ClipboardItems

/-! A clipboard message that spans several records (`clip::Reassembler`), on its way through
`Session::handle_tcp_msg` to the text of `handle_clipboard_send`. -/
namespace Scshr.Protocol

open Common List

structure Reassembler where
  buf : Bytes
  expected : Nat
  deriving DecidableEq

namespace Reassembler

def idle : Reassembler := ⟨[], 0⟩

def inProgress (r : Reassembler) : Bool := !r.buf.isEmpty

def append (r : Reassembler) (msg : Bytes) : Option Bytes × Reassembler :=
  let buf := r.buf ++ msg
  if r.expected ≤ buf.length then (some (buf.take r.expected), idle)
  else (none, { r with buf := buf })

theorem append_last (r : Reassembler) (msg : Bytes)
    (size : (r.buf ++ msg).length = r.expected) :
    r.append msg = (some (r.buf ++ msg), idle) := by
  unfold append
  dsimp only
  rw [if_pos (Nat.le_of_eq size.symm), ← size, take_length]

theorem append_pending (r : Reassembler) (msg : Bytes)
    (size : (r.buf ++ msg).length < r.expected) :
    r.append msg = (none, { r with buf := r.buf ++ msg }) :=
  if_neg (Nat.not_le.mpr size)

def feed (r : Reassembler) (msg : Bytes) : Option Bytes × Reassembler :=
  if r.buf = [] then
    match parseSendHeader msg with
    | none => (none, r)
    | some h => append { r with expected := 16 + h.compressed.toNat } msg
  else append r msg

theorem feed_first (msg : Bytes) (h : SendHeader) (parsed : parseSendHeader msg = some h) :
    idle.feed msg = append ⟨[], 16 + h.compressed.toNat⟩ msg := by
  unfold feed idle
  dsimp only
  rw [if_pos rfl, parsed]

def feedAll (step : Reassembler → Bytes → Option Bytes × Reassembler) :
    Reassembler → List Bytes → List (Option Bytes) × Reassembler
  | r, [] => ([], r)
  | r, msg :: msgs =>
    let rest := feedAll step (step r msg).2 msgs
    ((step r msg).1 :: rest.1, rest.2)

theorem feedAll_append (step : Reassembler → Bytes → Option Bytes × Reassembler)
    (first second : List Bytes) (r : Reassembler) :
    feedAll step r (first ++ second) =
      ((feedAll step r first).1 ++ (feedAll step (feedAll step r first).2 second).1,
        (feedAll step (feedAll step r first).2 second).2) := by
  induction first generalizing r with
  | nil => rfl
  | cons msg msgs ih =>
    simp only [cons_append, feedAll]
    rw [ih]

end Reassembler

inductive ControlAction where
  | ignored
  /-- A `0x14`, its command, and whether it is answered with a clipboard request. -/
  | miscStatus (cmd : Option Nat) (fetch : Bool)
  | clipboard (full : Option Bytes)
  | framebufferUpdate
  deriving DecidableEq

/-- `Session::handle_tcp_msg`; `clipboard` is the setting of the session. -/
def handleTcpMsg (clipboard : Bool) (reasm : Reassembler) (msg : Bytes) :
    ControlAction × Reassembler :=
  match msg with
  | [] => (.ignored, reasm)
  | t :: _ =>
    if reasm.inProgress then (.clipboard (reasm.feed msg).1, (reasm.feed msg).2)
    else if t = 0x14 then
      let cmd := if 8 ≤ msg.length then some (be16At msg 6) else none
      (.miscStatus cmd (decide (cmd = some 2) && clipboard), reasm)
    else if t = msgClipboardSend then (.clipboard (reasm.feed msg).1, (reasm.feed msg).2)
    else if t = 0 then (.framebufferUpdate, reasm)
    else (.ignored, reasm)

def ControlAction.message? : ControlAction → Option Bytes
  | .clipboard full => full
  | _ => none

def tcpFeed (clipboard : Bool) (reasm : Reassembler) (msg : Bytes) :
    Option Bytes × Reassembler :=
  let (action, reasm) := handleTcpMsg clipboard reasm msg
  (action.message?, reasm)

def clipboardText (inflateSyncFlush : Bytes → Option Bytes) (full : Bytes) : Option Bytes := do
  let h ← parseSendHeader full
  let dec ← inflateSyncFlush ((full.drop 16).take h.compressed.toNat)
  textFromItems (parseItems dec)

/-- The two miniz calls.  Both count what they are given in 32 bits, and the compressor's
output buffer is offered to it through a 32-bit length. -/
structure SyncFlush where
  deflate : Bytes → Bytes
  inflate : Bytes → Option Bytes
  deflate_length : ∀ raw, (deflate raw).length < 2 ^ 32
  inflate_deflate : ∀ text, text.length < 2 ^ 31 →
    inflate (deflate (clipboardItems text)) = some (clipboardItems text)

structure Transfer where
  text : Bytes
  first : Bytes
  rest : List Bytes

def Transfer.fragments (t : Transfer) : List Bytes := t.first :: t.rest

structure Transfer.Splits (deflate : Bytes → Bytes) (t : Transfer) : Prop where
  short : t.text.length < 2 ^ 31
  header : 16 ≤ t.first.length
  nonempty : ∀ msg ∈ t.rest, msg ≠ []
  message : t.fragments.flatten = buildClipboardSend deflate t.text

/-- Nothing for each fragment but the last, and the message for that. -/
def Transfer.results (deflate : Bytes → Bytes) (t : Transfer) : List (Option Bytes) :=
  List.replicate t.rest.length none ++ [some (buildClipboardSend deflate t.text)]

theorem parseSendHeader_append (front rest : Bytes) (long : 16 ≤ front.length) :
    parseSendHeader (front ++ rest) = parseSendHeader front := by
  have short : ¬ front.length < 16 := by omega
  have shorter : ¬ (front ++ rest).length < 16 := by
    rw [length_append]
    omega
  unfold parseSendHeader
  rw [getD_append front rest 0 0 (by omega), getD_append front rest 0 2 (by omega),
    be32At_append front rest 4 (by omega), be32At_append front rest 8 (by omega),
    be32At_append front rest 12 (by omega)]
  simp only [short, shorter, false_or]

theorem parseSendHeader_build (deflate : Bytes → Bytes) (text : Bytes) :
    parseSendHeader (buildClipboardSend deflate text) =
      some ⟨0, 0, UInt32.ofNat (clipboardItems text).length,
        UInt32.ofNat (deflate (clipboardItems text)).length⟩ := by
  let front := [msgClipboardSend, 0, 0, 0]
  let inner := putBe32 (UInt32.ofNat (clipboardItems text).length)
  let comp := deflate (clipboardItems text)
  have reserved : be32At (buildClipboardSend deflate text) 4 = 0 := by
    have layout : buildClipboardSend deflate text =
        front ++ putBe32 0 ++ (inner ++ (putBe32 (UInt32.ofNat comp.length) ++ comp)) := by
      simp only [buildClipboardSend, front, inner, comp, append_assoc]
    rw [layout]
    exact be32At_putBe32 front 0 _
  have uncompressed : be32At (buildClipboardSend deflate text) 8 =
      UInt32.ofNat (clipboardItems text).length := by
    have layout : buildClipboardSend deflate text =
        front ++ putBe32 0 ++ inner ++ (putBe32 (UInt32.ofNat comp.length) ++ comp) := by
      simp only [buildClipboardSend, front, inner, comp, append_assoc]
    rw [layout]
    exact be32At_putBe32 (front ++ putBe32 0) _ _
  have compressed : be32At (buildClipboardSend deflate text) 12 =
      UInt32.ofNat (deflate (clipboardItems text)).length :=
    be32At_putBe32 (front ++ putBe32 0 ++ inner) _ _
  have long : ¬ (buildClipboardSend deflate text).length < 16 := by
    rw [buildClipboardSend_length]
    omega
  unfold parseSendHeader
  rw [reserved, uncompressed, compressed, if_neg]
  · rfl
  · rintro (short | other)
    · exact long short
    · exact other rfl

theorem clipboardText_build (z : SyncFlush) (text : Bytes) (short : text.length < 2 ^ 31) :
    clipboardText z.inflate (buildClipboardSend z.deflate text) = some text := by
  have size : (UInt32.ofNat (z.deflate (clipboardItems text)).length).toNat =
      (z.deflate (clipboardItems text)).length :=
    UInt32.toNat_ofNat_of_lt' (z.deflate_length _)
  have body : (buildClipboardSend z.deflate text).drop 16 = z.deflate (clipboardItems text) := by
    unfold buildClipboardSend
    apply drop_left'
    simp only [length_append, putBe32_length, length_cons, length_nil]
  unfold clipboardText
  rw [parseSendHeader_build]
  dsimp only [Option.bind_eq_bind, Option.bind_some]
  rw [size, body, take_length, z.inflate_deflate text short, Option.bind_some]
  exact textFromItems_clipboardItems text (by omega)

section

variable (step : Reassembler → Bytes → Option Bytes × Reassembler)

def Feeds : Prop :=
  ∀ (r : Reassembler) (msg : Bytes), msg ≠ [] →
    r.buf ≠ [] ∨ msg.head? = some msgClipboardSend → step r msg = r.feed msg

theorem feeds_feed : Feeds Reassembler.feed := fun _ _ _ _ => rfl

theorem feeds_tcpFeed (clipboard : Bool) : Feeds (tcpFeed clipboard) := by
  intro r msg filled kind
  cases msg with
  | nil => exact absurd rfl filled
  | cons t msg =>
    unfold tcpFeed handleTcpMsg
    dsimp only
    by_cases free : r.buf = []
    · have first : t = msgClipboardSend := by simpa [free] using kind
      have waiting : ¬ r.inProgress = true := by simp [Reassembler.inProgress, free]
      have other : ¬ t = 0x14 := by
        rw [first]
        decide
      rw [if_neg waiting, if_neg other, if_pos first]
      rfl
    · have going : r.inProgress = true := by simp [Reassembler.inProgress, free]
      rw [if_pos going]
      rfl

variable {step : Reassembler → Bytes → Option Bytes × Reassembler}

theorem feedAll_fragments (feeds : Feeds step) (rest : List Bytes) (msg : Bytes)
    (r start : Reassembler) (stepped : step r msg = start.append msg) (filled : msg ≠ [])
    (nonempty : ∀ m ∈ rest, m ≠ [])
    (size : (start.buf ++ (msg :: rest).flatten).length = start.expected) :
    Reassembler.feedAll step r (msg :: rest) =
      (List.replicate rest.length none ++ [some (start.buf ++ (msg :: rest).flatten)],
        .idle) := by
  induction rest generalizing r start msg with
  | nil =>
    rw [flatten_cons, flatten_nil, append_nil] at size ⊢
    unfold Reassembler.feedAll
    rw [stepped, Reassembler.append_last start msg size]
    rfl
  | cons next rest ih =>
    have more : next ≠ [] := nonempty next mem_cons_self
    have short : (start.buf ++ msg).length < start.expected := by
      have := length_pos_iff.mpr more
      simp only [flatten_cons, length_append] at size ⊢
      omega
    let grown : Reassembler := { start with buf := start.buf ++ msg }
    have busy : grown.buf ≠ [] := append_ne_nil_of_right_ne_nil _ filled
    have following : step grown next = grown.append next :=
      (feeds grown next more (.inl busy)).trans (if_neg busy)
    have whole : grown.buf ++ (next :: rest).flatten = start.buf ++ (msg :: next :: rest).flatten :=
      append_assoc ..
    have tail := ih next grown grown following more
      (fun m mem => nonempty m (mem_cons_of_mem _ mem)) (by rw [whole, size])
    rw [whole] at tail
    rw [Reassembler.feedAll, stepped, Reassembler.append_pending start msg short, tail]
    rfl

theorem head_of_splits {deflate : Bytes → Bytes} {t : Transfer} (splits : t.Splits deflate) :
    t.first.head? = some msgClipboardSend := by
  have long := splits.header
  have heads := congrArg List.head? splits.message
  unfold Transfer.fragments at heads
  cases first : t.first with
  | nil =>
    rw [first] at long
    exact absurd long (by decide)
  | cons byte bytes =>
    rw [first] at heads
    exact heads

theorem feedAll_transfer (feeds : Feeds step) (z : SyncFlush) (t : Transfer)
    (splits : t.Splits z.deflate) :
    Reassembler.feedAll step .idle t.fragments = (t.results z.deflate, .idle) := by
  let comp := UInt32.ofNat (z.deflate (clipboardItems t.text)).length
  have kind := head_of_splits splits
  have filled : t.first ≠ [] := by
    intro empty
    rw [empty] at kind
    cases kind
  have header : parseSendHeader t.first =
      some ⟨0, 0, UInt32.ofNat (clipboardItems t.text).length, comp⟩ := by
    rw [← parseSendHeader_append t.first t.rest.flatten splits.header]
    exact (congrArg parseSendHeader splits.message).trans (parseSendHeader_build _ _)
  have stepped : step .idle t.first = Reassembler.append ⟨[], 16 + comp.toNat⟩ t.first := by
    rw [feeds .idle t.first filled (.inr kind), Reassembler.feed_first t.first _ header]
  have size : t.fragments.flatten.length = 16 + comp.toNat := by
    rw [splits.message, buildClipboardSend_length,
      UInt32.toNat_ofNat_of_lt' (z.deflate_length (clipboardItems t.text))]
  have all := feedAll_fragments feeds t.rest t.first .idle ⟨[], 16 + comp.toNat⟩ stepped filled
    splits.nonempty size
  unfold Transfer.results
  rw [← splits.message]
  exact all

theorem feedAll_transfers (feeds : Feeds step) (z : SyncFlush) (transfers : List Transfer)
    (splits : ∀ t ∈ transfers, t.Splits z.deflate) :
    Reassembler.feedAll step .idle (transfers.flatMap Transfer.fragments) =
      (transfers.flatMap (Transfer.results z.deflate), .idle) := by
  induction transfers with
  | nil => rfl
  | cons t transfers ih =>
    rw [flatMap_cons, Reassembler.feedAll_append,
      feedAll_transfer feeds z t (splits t mem_cons_self)]
    dsimp only
    rw [ih fun u mem => splits u (mem_cons_of_mem t mem), flatMap_cons]

end

/-- Every message is complete with its last fragment and with none before, the reassembler
is idle after it, and the message reads back to its text; the same holds for the fragments
as control messages. -/
theorem clipboard_transfer (z : SyncFlush) (clipboard : Bool) (transfers : List Transfer)
    (splits : ∀ t ∈ transfers, t.Splits z.deflate) :
    Reassembler.feedAll Reassembler.feed .idle (transfers.flatMap Transfer.fragments) =
      (transfers.flatMap (Transfer.results z.deflate), .idle) ∧
    Reassembler.feedAll (tcpFeed clipboard) .idle (transfers.flatMap Transfer.fragments) =
      (transfers.flatMap (Transfer.results z.deflate), .idle) ∧
    ∀ t ∈ transfers,
      clipboardText z.inflate (buildClipboardSend z.deflate t.text) = some t.text :=
  ⟨feedAll_transfers feeds_feed z transfers splits,
    feedAll_transfers (feeds_tcpFeed clipboard) z transfers splits,
    fun t mem => clipboardText_build z t.text (splits t mem).short⟩

theorem clipboardItems_length_lt (short : text.length < 2 ^ 31) :
    (clipboardItems text).length < 2 ^ 32 := by
  have size : plainTextUti.length = 22 := by decide
  simp only [clipboardItems, length_append, putBe32_length, size]
  omega

def storing : SyncFlush where
  deflate raw := raw.take (2 ^ 32 - 1)
  inflate := some
  deflate_length raw := by
    have := length_take_le (2 ^ 32 - 1) raw
    omega
  inflate_deflate text short := by
    rw [take_of_length_le (Nat.le_sub_one_of_lt (clipboardItems_length_lt short))]

def Transfer.cut (deflate : Bytes → Bytes) (text : Bytes) (k : Nat) : Transfer :=
  ⟨text, (buildClipboardSend deflate text).take k, [(buildClipboardSend deflate text).drop k]⟩

theorem Transfer.cut_splits (deflate : Bytes → Bytes) (text : Bytes) (k : Nat)
    (short : text.length < 2 ^ 31) (header : 16 ≤ k)
    (inside : k < (buildClipboardSend deflate text).length) :
    (Transfer.cut deflate text k).Splits deflate where
  short := short
  header := by
    unfold Transfer.cut
    rw [length_take]
    omega
  nonempty := by
    intro msg mem
    rw [mem_singleton.mp mem]
    exact drop_eq_nil_iff.not.mpr (Nat.not_le.mpr inside)
  message := by
    unfold Transfer.cut Transfer.fragments
    simp

/-- The texts `hi` and `a`, each in two pieces. -/
theorem clipboard_transfer_storing :
    let transfers := [Transfer.cut storing.deflate [0x68, 0x69] 16,
      Transfer.cut storing.deflate [0x61] 20]
    (∀ t ∈ transfers, t.Splits storing.deflate) ∧
      Reassembler.feedAll Reassembler.feed .idle (transfers.flatMap Transfer.fragments) =
        (transfers.flatMap (Transfer.results storing.deflate), .idle) := by
  intro transfers
  have splits : ∀ t ∈ transfers, t.Splits storing.deflate := by
    intro t mem
    rcases mem_pair.mp mem with rfl | rfl
    · refine Transfer.cut_splits _ _ 16 (by decide) (by decide) ?_
      rw [buildClipboardSend_length]
      decide
    · refine Transfer.cut_splits _ _ 20 (by decide) (by decide) ?_
      rw [buildClipboardSend_length]
      decide
  exact ⟨splits, (clipboard_transfer storing true transfers splits).1⟩

end Scshr.Protocol
