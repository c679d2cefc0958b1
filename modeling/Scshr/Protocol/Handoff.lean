import Scshr.Protocol.Offers
import Scshr.Protocol.RecordStream

/-! From negotiation to session: `read_video_answer` and the re-query loop of
`protocol/negotiation.cpp`, then `Session::tcp_thread`, all reading one socket
through one record layer.  The socket is the list of the reads it will return;
when it is empty the peer has closed.  `extract_canvas_dims` is a parameter:
only whether it sees a canvas matters here. -/
namespace Scshr.Protocol

open Common Lib List

def degenerateRetryLimit : Nat := 16

/-- The receive loop of `read_video_answer`: reads until more than a hundred
bytes have come in. -/
def recvAnswer (answer : Bytes) : List Bytes → Bytes × List Bytes
  | [] => (answer, [])
  | chunk :: rest =>
      if (answer ++ chunk).length > 100 then (answer ++ chunk, rest)
      else recvAnswer (answer ++ chunk) rest

/-- Result of one or more calls of `read_video_answer`, with the message that
was consumed as the canvas and the socket behind them. -/
structure Answer where
  seen : CanvasDims
  canvas : Option Bytes
  leftover : List Bytes
  layer : RecordLayer
  chunks : List Bytes

section

variable (crypto : Crypto) (extractCanvasDims : Bytes → CanvasDims)

def sortAnswer (answer : Answer) (message : Bytes) : Answer :=
  let cd := extractCanvasDims message
  if cd.w ≠ 0 ∧ cd.h ≠ 0 ∧ answer.seen.w = 0 then
    { answer with seen := cd, canvas := some message }
  else { answer with leftover := answer.leftover ++ [message] }

/-- The unconsumed tail of the answer goes out of scope with its buffer. -/
def readVideoAnswer (layer : RecordLayer) (chunks leftover : List Bytes) : Answer :=
  let received := recvAnswer [] chunks
  if received.1 = [] then ⟨{}, none, leftover, layer, received.2⟩
  else
    let result := decryptStream crypto layer received.1
    result.out.foldl (sortAnswer extractCanvasDims)
      ⟨{}, none, leftover, result.layer, received.2⟩

/-- The degenerate-canvas loop of `connect_and_negotiate`. -/
def requery (msg1c : Bytes) : Nat → Answer → Answer
  | 0, answer => answer
  | attempts + 1, answer =>
      if answer.seen.w = 0 ∨ answer.seen.h = 0 then
        let layer := (answer.layer.encryptMessage crypto msg1c).2
        requery msg1c attempts
          (readVideoAnswer crypto extractCanvasDims layer answer.chunks answer.leftover)
      else answer

/-- The messages `tcp_thread` hands on; its buffer is empty at the start. -/
def tcpThread (layer : RecordLayer) (chunks : List Bytes) : List Bytes :=
  (tcpLoop crypto layer [] chunks).out

structure Handed where
  canvas : Option Bytes
  leftover : List Bytes
  tcp : List Bytes
  deriving DecidableEq

def handOff (msg1c : Bytes) (layer : RecordLayer) (chunks : List Bytes) : Handed :=
  let answer := requery crypto extractCanvasDims msg1c degenerateRetryLimit
    (readVideoAnswer crypto extractCanvasDims layer chunks [])
  ⟨answer.canvas, answer.leftover, tcpThread crypto answer.layer answer.chunks⟩

end

def IsCanvas (extractCanvasDims : Bytes → CanvasDims) (message : Bytes) : Prop :=
  (extractCanvasDims message).w ≠ 0 ∧ (extractCanvasDims message).h ≠ 0

instance (extractCanvasDims : Bytes → CanvasDims) (message : Bytes) :
    Decidable (IsCanvas extractCanvasDims message) :=
  inferInstanceAs (Decidable (_ ∧ _))

/-- The three together are the messages sent, in order. -/
def Complete (messages : List Bytes) (handed : Handed) : Prop :=
  ∃ before after, messages = before ++ handed.canvas.toList ++ after ∧
    handed.leftover ++ handed.tcp = before ++ after

/-- The bytes that each call of `read_video_answer` takes from the socket end at
a record boundary; a call that meets no canvas is followed by another one. -/
def Aligned (extractCanvasDims : Bytes → CanvasDims) :
    Nat → List Bytes → List Bytes → Prop
  | attempts, chunks, messages =>
      ∃ first second, messages = first ++ second ∧
        (recvAnswer [] chunks).1.length = wireTotal first ∧
        match attempts with
        | 0 => True
        | attempts + 1 =>
            (∃ message ∈ first, IsCanvas extractCanvasDims message) ∨
              Aligned extractCanvasDims attempts (recvAnswer [] chunks).2 second

/-! ### The session thread -/

theorem tcpThread_eq (crypto : Crypto) (chunks : List Bytes) (layer : RecordLayer) :
    tcpThread crypto layer chunks = (decryptStream crypto layer chunks.flatten).out := by
  rw [tcpThread, tcpLoop_eq crypto chunks layer [] rfl, nil_append]

theorem recvAnswer_flatten (chunks : List Bytes) (answer : Bytes) :
    (recvAnswer answer chunks).1 ++ (recvAnswer answer chunks).2.flatten =
      answer ++ chunks.flatten := by
  induction chunks generalizing answer with
  | nil => rfl
  | cons chunk rest ih =>
    unfold recvAnswer
    split
    · simp
    · rw [ih]
      simp

/-! ### All messages read, in reading order -/

section

variable (crypto : Crypto) (dims : Bytes → CanvasDims) (msg1c : Bytes)

abbrev answered (layer : RecordLayer) (chunks : List Bytes) : StreamResult :=
  decryptStream crypto layer (recvAnswer [] chunks).1

abbrev Met (messages : List Bytes) : Prop := ∃ message ∈ messages, IsCanvas dims message

/-- The messages of all calls and of the session thread behind them. -/
def readOn : Nat → RecordLayer → List Bytes → List Bytes
  | attempts, layer, chunks =>
      let received := recvAnswer [] chunks
      let result := decryptStream crypto layer received.1
      result.out ++
        match attempts with
        | 0 => tcpThread crypto result.layer received.2
        | attempts + 1 =>
            if ∃ message ∈ result.out, IsCanvas dims message then
              tcpThread crypto result.layer received.2
            else readOn attempts (result.layer.encryptMessage crypto msg1c).2 received.2

variable {crypto dims msg1c}

theorem readVideoAnswer_eq (layer : RecordLayer) (chunks leftover : List Bytes) :
    readVideoAnswer crypto dims layer chunks leftover =
      (answered crypto layer chunks).out.foldl
        (sortAnswer dims)
        ⟨{}, none, leftover, (answered crypto layer chunks).layer,
          (recvAnswer [] chunks).2⟩ := by
  unfold readVideoAnswer
  dsimp only
  split
  · rename_i hempty
    rw [answered, hempty, decryptStream_nil]
    rfl
  · rfl

theorem foldl_sortAnswer_leftover (messages : List Bytes) (answer : Answer)
    (h : ∀ message ∈ messages, IsCanvas dims message → answer.seen.w ≠ 0) :
    messages.foldl (sortAnswer dims) answer =
      { answer with leftover := answer.leftover ++ messages } := by
  induction messages generalizing answer with
  | nil => simp
  | cons message rest ih =>
    obtain ⟨hone, hrest⟩ := forall_mem_cons.mp h
    have hstep : sortAnswer dims answer message =
        { answer with leftover := answer.leftover ++ [message] } := by
      unfold sortAnswer
      exact if_neg fun hnew => hone ⟨hnew.1, hnew.2.1⟩ hnew.2.2
    rw [foldl_cons, hstep, ih { answer with leftover := answer.leftover ++ [message] } hrest]
    simp

theorem foldl_sortAnswer_canvas (messages : List Bytes) (answer : Answer)
    (hseen : answer.seen.w = 0)
    (h : Met dims messages) :
    ∃ before canvas after, messages = before ++ canvas :: after ∧
      IsCanvas dims canvas ∧
      messages.foldl (sortAnswer dims) answer =
        { answer with
          seen := dims canvas
          canvas := some canvas
          leftover := answer.leftover ++ before ++ after } := by
  induction messages generalizing answer with
  | nil => simp [Met] at h
  | cons message rest ih =>
    by_cases hcanvas : IsCanvas dims message
    · refine ⟨[], message, rest, rfl, hcanvas, ?_⟩
      have hstep : sortAnswer dims answer message =
          { answer with seen := dims message, canvas := some message } := by
        unfold sortAnswer
        exact if_pos ⟨hcanvas.1, hcanvas.2, hseen⟩
      rw [foldl_cons, hstep, foldl_sortAnswer_leftover rest _ fun _ _ _ => hcanvas.1]
      simp
    · have hstep : sortAnswer dims answer message =
          { answer with leftover := answer.leftover ++ [message] } := by
        unfold sortAnswer
        exact if_neg fun hnew => hcanvas ⟨hnew.1, hnew.2.1⟩
      have hrest : Met dims rest := by
        simpa [Met, hcanvas] using h
      obtain ⟨before, canvas, after, rfl, hfound, hfold⟩ :=
        ih { answer with leftover := answer.leftover ++ [message] } hseen hrest
      refine ⟨message :: before, canvas, after, rfl, hfound, ?_⟩
      rw [foldl_cons, hstep, hfold]
      simp

theorem readVideoAnswer_canvas (leftover : List Bytes)
    (h : Met dims (answered crypto layer chunks).out) :
    ∃ before canvas after,
      (answered crypto layer chunks).out = before ++ canvas :: after ∧
      IsCanvas dims canvas ∧
      readVideoAnswer crypto dims layer chunks leftover =
        ⟨dims canvas, some canvas, leftover ++ before ++ after,
          (answered crypto layer chunks).layer,
          (recvAnswer [] chunks).2⟩ := by
  rw [readVideoAnswer_eq]
  generalize answered crypto layer chunks = result at *
  exact foldl_sortAnswer_canvas result.out
    ⟨{}, none, leftover, result.layer, (recvAnswer [] chunks).2⟩ rfl h

theorem readVideoAnswer_none (leftover : List Bytes)
    (h : ¬ Met dims (answered crypto layer chunks).out) :
    readVideoAnswer crypto dims layer chunks leftover =
      ⟨{}, none, leftover ++ (answered crypto layer chunks).out,
        (answered crypto layer chunks).layer, (recvAnswer [] chunks).2⟩ := by
  rw [readVideoAnswer_eq]
  exact foldl_sortAnswer_leftover _ _ fun message hmem hone => absurd ⟨message, hmem, hone⟩ h

theorem requery_of_seen (attempts : Nat) (hw : answer.seen.w ≠ 0) (hh : answer.seen.h ≠ 0) :
    requery crypto dims msg1c attempts answer = answer := by
  cases attempts with
  | zero => rfl
  | succ attempts => simp [requery, hw, hh]

theorem readOn_stop
    (h : attempts = 0 ∨ Met dims (answered crypto layer chunks).out) :
    readOn crypto dims msg1c attempts layer chunks =
      (answered crypto layer chunks).out ++
        tcpThread crypto (answered crypto layer chunks).layer (recvAnswer [] chunks).2 := by
  cases attempts with
  | zero => rfl
  | succ attempts =>
    rw [readOn]
    simp only [if_pos (h.resolve_left (Nat.succ_ne_zero attempts))]

theorem readOn_next
    (h : ¬ Met dims (answered crypto layer chunks).out) :
    readOn crypto dims msg1c (attempts + 1) layer chunks =
      (answered crypto layer chunks).out ++
        readOn crypto dims msg1c attempts
          ((answered crypto layer chunks).layer.encryptMessage
            crypto msg1c).2 (recvAnswer [] chunks).2 := by
  rw [readOn]
  simp only [if_neg h]

theorem requery_readOn (attempts : Nat) (layer : RecordLayer) (chunks leftover : List Bytes) :
    let answer := requery crypto dims msg1c attempts
      (readVideoAnswer crypto dims layer chunks leftover)
    ∃ before after,
      readOn crypto dims msg1c attempts layer chunks =
        before ++ answer.canvas.toList ++ after ∧
      answer.leftover ++ tcpThread crypto answer.layer answer.chunks =
        leftover ++ before ++ after := by
  by_cases hcanvas : Met dims (answered crypto layer chunks).out
  · obtain ⟨before, canvas, after, hout, hfound, hanswer⟩ :=
      readVideoAnswer_canvas leftover hcanvas
    rw [hanswer, requery_of_seen _ hfound.1 hfound.2, readOn_stop (.inr hcanvas), hout]
    exact ⟨before, after ++ tcpThread crypto
      (answered crypto layer chunks).layer (recvAnswer [] chunks).2,
      by simp, by simp⟩
  · rw [readVideoAnswer_none leftover hcanvas]
    cases attempts with
    | zero =>
      rw [readOn_stop (.inl rfl)]
      exact ⟨(answered crypto layer chunks).out, _, by simp [requery], rfl⟩
    | succ attempts =>
      obtain ⟨before, after, hread, hleft⟩ := requery_readOn attempts
        ((answered crypto layer chunks).layer.encryptMessage crypto msg1c).2
        (recvAnswer [] chunks).2
        (leftover ++ (answered crypto layer chunks).out)
      refine ⟨(answered crypto layer chunks).out ++ before, after, ?_, ?_⟩
      · simp only [readOn_next hcanvas, hread, requery, true_or, ↓reduceIte, append_assoc]
      · simp only [requery, true_or, ↓reduceIte]
        rw [hleft]
        simp

/-! ### Aligned reads -/

theorem InSync.encryptMessage (h : InSync sender receiver) (pt : Bytes) :
    InSync sender (receiver.encryptMessage crypto pt).2 :=
  h

theorem aligned_split (hwire : chunks.flatten = (sendAll crypto sender (first ++ second)).1)
    (hlength : (recvAnswer [] chunks).1.length = wireTotal first) :
    (recvAnswer [] chunks).1 = (sendAll crypto sender first).1 ∧
      (recvAnswer [] chunks).2.flatten =
        (sendAll crypto (sendAll crypto sender first).2 second).1 := by
  apply append_inj
  · rw [recvAnswer_flatten, nil_append, hwire, sendAll_append]
  · rw [hlength, sendAll_length]

theorem tcpThread_read (h : Genuine crypto sender layer messages)
    (hfit : CountersFit sender messages)
    (hwire : chunks.flatten = (sendAll crypto sender messages).1) :
    tcpThread crypto layer chunks = messages := by
  rw [tcpThread_eq crypto chunks layer, hwire]
  exact (h.stream_read hfit).1

theorem readOn_of_aligned (attempts : Nat) (h : Genuine crypto sender layer messages)
    (hfit : CountersFit sender messages)
    (hwire : chunks.flatten = (sendAll crypto sender messages).1)
    (haligned : Aligned dims attempts chunks messages) :
    readOn crypto dims msg1c attempts layer chunks = messages := by
  unfold Aligned at haligned
  obtain ⟨first, second, rfl, hlength, hlater⟩ := haligned
  obtain ⟨hanswer, hrest⟩ := aligned_split hwire hlength
  obtain ⟨hfitFirst, hfitSecond⟩ := countersFit_append.mp hfit
  obtain ⟨hout, hnext⟩ := h.front.stream_read hfitFirst
  have htcp := tcpThread_read (h.back hnext) hfitSecond hrest
  cases attempts with
  | zero => simp only [readOn, hanswer, hout, htcp]
  | succ attempts =>
    simp only [readOn, hanswer, hout]
    by_cases hcanvas : Met dims first
    · rw [if_pos hcanvas, htcp]
    · rw [if_neg hcanvas, readOn_of_aligned attempts (h.back (hnext.encryptMessage msg1c))
        hfitSecond hrest (hlater.resolve_left hcanvas)]

/-! ### Lost bytes -/

theorem tcpThread_cost
    (hlength : ∀ message ∈ tcpThread crypto layer chunks, message.length ≠ 16) :
    wireTotal (tcpThread crypto layer chunks) ≤ chunks.flatten.length := by
  rw [tcpThread_eq crypto chunks layer] at hlength ⊢
  have := decryptStream_cost hlength
  omega

theorem recvAnswer_length (chunks : List Bytes) :
    (recvAnswer [] chunks).1.length + (recvAnswer [] chunks).2.flatten.length =
      chunks.flatten.length := by
  rw [← length_append, recvAnswer_flatten, nil_append]

theorem answered_cost
    (hlength : ∀ message ∈ (answered crypto layer chunks).out, message.length ≠ 16) :
    wireTotal (answered crypto layer chunks).out + (answered crypto layer chunks).left.length +
      (recvAnswer [] chunks).2.flatten.length ≤ chunks.flatten.length := by
  rw [← recvAnswer_length chunks]
  exact Nat.add_le_add_right (decryptStream_cost hlength) _

theorem readOn_cost (attempts : Nat)
    (hlength : ∀ message ∈ readOn crypto dims msg1c attempts layer chunks,
      message.length ≠ 16) :
    wireTotal (readOn crypto dims msg1c attempts layer chunks) ≤
      chunks.flatten.length := by
  by_cases hstop : attempts = 0 ∨ Met dims (answered crypto layer chunks).out
  · rw [readOn_stop hstop] at hlength ⊢
    obtain ⟨hout, hlater⟩ := forall_mem_append.mp hlength
    have hfirst := answered_cost hout
    have hrest := tcpThread_cost hlater
    rw [wireTotal_append]
    omega
  · obtain ⟨hpos, hcanvas⟩ := not_or.mp hstop
    obtain ⟨attempts, rfl⟩ := Nat.exists_eq_succ_of_ne_zero hpos
    rw [readOn_next hcanvas] at hlength ⊢
    obtain ⟨hout, hlater⟩ := forall_mem_append.mp hlength
    have hfirst := answered_cost hout
    have hrest := readOn_cost attempts hlater
    rw [wireTotal_append]
    omega

/-- When the messages account for every byte, the first read has left nothing
behind: it ends at a record boundary and its messages are those sent up to it. -/
theorem first_read_exact (h : Genuine crypto sender layer messages)
    (hwire : chunks.flatten = (sendAll crypto sender messages).1)
    (hlength : ∀ message ∈ (answered crypto layer chunks).out, message.length ≠ 16)
    (hlater : wireTotal later ≤ (recvAnswer [] chunks).2.flatten.length)
    (hcost : wireTotal ((answered crypto layer chunks).out ++ later) = wireTotal messages) :
    ∃ first second, messages = first ++ second ∧
      (recvAnswer [] chunks).1.length = wireTotal first ∧
      (recvAnswer [] chunks).2.flatten =
        (sendAll crypto (sendAll crypto sender first).2 second).1 ∧
      (answered crypto layer chunks).out = first ∧
      CountersFit sender first ∧
      InSync (sendAll crypto sender first).2 (answered crypto layer chunks).layer ∧
      wireTotal later = wireTotal second := by
  have hfirst := answered_cost hlength
  rw [hwire, sendAll_length] at hfirst
  rw [wireTotal_append] at hcost
  have hleft : (wireRecords (recvAnswer [] chunks).1).2 = [] := by
    apply length_eq_zero_iff.mp
    change (answered crypto layer chunks).left.length = 0
    omega
  have hsplit := recvAnswer_flatten chunks []
  rw [nil_append, hwire] at hsplit
  obtain ⟨first, second, rfl, hanswer⟩ := boundary_of_consumed messages h.size hsplit hleft
  have hboundary : (recvAnswer [] chunks).1.length = wireTotal first := by
    rw [hanswer, sendAll_length]
  obtain ⟨-, hrest⟩ := aligned_split hwire hboundary
  rw [wireTotal_append] at hcost hfirst
  rw [hrest, sendAll_length] at hlater hfirst
  have hfit : CountersFit sender first := by
    apply h.front.countersFit
    · rw [← hanswer]
      exact hlength
    · rw [← hanswer]
      change wireTotal (answered crypto layer chunks).out = _
      omega
  obtain ⟨hout, hnext⟩ := h.front.stream_read hfit
  rw [← hanswer] at hout hnext
  refine ⟨first, second, rfl, hboundary, hrest, hout, hfit, hnext, ?_⟩
  rw [hout] at hcost
  omega

theorem tcpThread_fit (h : Genuine crypto sender layer messages)
    (hwire : chunks.flatten = (sendAll crypto sender messages).1)
    (hlength : ∀ message ∈ tcpThread crypto layer chunks, message.length ≠ 16)
    (hcost : wireTotal (tcpThread crypto layer chunks) = wireTotal messages) :
    CountersFit sender messages := by
  rw [tcpThread_eq crypto chunks layer, hwire] at hlength hcost
  exact h.countersFit hlength hcost

theorem aligned_of_cost (attempts : Nat) (h : Genuine crypto sender layer messages)
    (hwire : chunks.flatten = (sendAll crypto sender messages).1)
    (hlength : ∀ message ∈ readOn crypto dims msg1c attempts layer chunks,
      message.length ≠ 16)
    (hcost : wireTotal (readOn crypto dims msg1c attempts layer chunks) =
      wireTotal messages) :
    Aligned dims attempts chunks messages ∧ CountersFit sender messages := by
  by_cases hstop : attempts = 0 ∨ Met dims (answered crypto layer chunks).out
  · rw [readOn_stop hstop] at hlength hcost
    obtain ⟨hout, hlater⟩ := forall_mem_append.mp hlength
    obtain ⟨first, second, rfl, hboundary, hrest, hfirst, hfit, hnext, hsecond⟩ :=
      first_read_exact h hwire hout (tcpThread_cost hlater) hcost
    have hfitSecond := tcpThread_fit (h.back hnext) hrest hlater hsecond
    refine ⟨?_, countersFit_append.mpr ⟨hfit, hfitSecond⟩⟩
    unfold Aligned
    refine ⟨first, second, rfl, hboundary, ?_⟩
    cases attempts with
    | zero => trivial
    | succ attempts => exact .inl (hfirst ▸ hstop.resolve_left (Nat.succ_ne_zero attempts))
  · obtain ⟨hpos, hcanvas⟩ := not_or.mp hstop
    obtain ⟨attempts, rfl⟩ := Nat.exists_eq_succ_of_ne_zero hpos
    rw [readOn_next hcanvas] at hlength hcost
    obtain ⟨hout, hlater⟩ := forall_mem_append.mp hlength
    obtain ⟨first, second, rfl, hboundary, hrest, hfirst, hfit, hnext, hsecond⟩ :=
      first_read_exact h hwire hout (readOn_cost attempts hlater) hcost
    obtain ⟨haligned, hfitSecond⟩ := aligned_of_cost attempts
      (h.back (hnext.encryptMessage msg1c)) hrest hlater hsecond
    refine ⟨?_, countersFit_append.mpr ⟨hfit, hfitSecond⟩⟩
    unfold Aligned
    exact ⟨first, second, rfl, hboundary, .inr haligned⟩

end

theorem handOff_readOn (crypto : Crypto) (extractCanvasDims : Bytes → CanvasDims) (msg1c : Bytes)
    (layer : RecordLayer) (chunks : List Bytes) :
    Complete (readOn crypto extractCanvasDims msg1c degenerateRetryLimit layer chunks)
      (handOff crypto extractCanvasDims msg1c layer chunks) :=
  requery_readOn degenerateRetryLimit layer chunks []

theorem Complete.perm (h : Complete messages handed) :
    messages.Perm (handed.canvas.toList ++ (handed.leftover ++ handed.tcp)) := by
  obtain ⟨before, after, rfl, hrest⟩ := h
  rw [hrest, ← append_assoc]
  exact perm_append_comm.append_right after

/-- The hand-off loses nothing when every answer read ends at a record boundary
and the counters fit.  Otherwise bytes have been dropped, and unless one-block
messages make up for them, so have messages. -/
theorem handOff_complete_iff (crypto : Crypto) (extractCanvasDims : Bytes → CanvasDims)
    (msg1c : Bytes) (sender receiver : RecordLayer) (messages chunks : List Bytes)
    (hsync : InSync sender receiver) (hsize : ∀ message ∈ messages, message.length ≤ 65498)
    (htags : TagsAllDiffer crypto sender messages)
    (hwire : chunks.flatten = (sendAll crypto sender messages).1) :
    (Aligned extractCanvasDims degenerateRetryLimit chunks messages ∧
        CountersFit sender messages →
      Complete messages (handOff crypto extractCanvasDims msg1c receiver chunks)) ∧
    ((∀ message ∈ messages, message.length ≠ 16) →
      Complete messages (handOff crypto extractCanvasDims msg1c receiver chunks) →
      Aligned extractCanvasDims degenerateRetryLimit chunks messages ∧
        CountersFit sender messages) := by
  have hread := handOff_readOn crypto extractCanvasDims msg1c receiver chunks
  have hgenuine : Genuine crypto sender receiver messages := ⟨hsync, hsize, htags⟩
  constructor
  · rintro ⟨haligned, hfit⟩
    rwa [readOn_of_aligned degenerateRetryLimit hgenuine hfit hwire haligned] at hread
  · intro hlength hcomplete
    have hperm := hread.perm.trans hcomplete.perm.symm
    apply aligned_of_cost degenerateRetryLimit hgenuine hwire
    · intro message hmessage
      exact hlength message (hperm.mem_iff.mp hmessage)
    · exact (hperm.map wireLen).sum_nat

def canvasAnswer : List Bytes := [List.replicate 90 1, [0x14]]

def firstByteCanvas (message : Bytes) : CanvasDims :=
  if message.head? = some 1 then { w := 1920, h := 1080, tiles := 1, ltrp := 0 } else {}

def cutAnswer (count : Nat) : List Bytes :=
  [(sendAll clearCrypto freshLayer canvasAnswer).1.take count,
    (sendAll clearCrypto freshLayer canvasAnswer).1.drop count]

theorem handOff_complete_cut114 :
    Complete canvasAnswer
      (handOff clearCrypto firstByteCanvas [0x1c] freshLayer (cutAnswer 114)) := by
  apply (handOff_complete_iff clearCrypto firstByteCanvas [0x1c] freshLayer freshLayer canvasAnswer
    (cutAnswer 114) ⟨rfl, rfl⟩ (by decide) ?_ (by simp [cutAnswer])).1
  · refine ⟨?_, by unfold CountersFit; decide⟩
    unfold degenerateRetryLimit Aligned
    refine ⟨[List.replicate 90 1], [[0x14]], rfl, by decide +kernel, .inl ?_⟩
    exact ⟨List.replicate 90 1, mem_singleton.mpr rfl, by decide⟩
  · exact ⟨by unfold TagsDiffer; decide +kernel, by unfold TagsDiffer; decide +kernel, trivial⟩

/-- One byte further, the first byte of the second record is dropped and the
record is lost. -/
theorem handOff_incomplete_cut115 :
    ¬ Complete canvasAnswer
      (handOff clearCrypto firstByteCanvas [0x1c] freshLayer (cutAnswer 115)) := by
  have hhanded : handOff clearCrypto firstByteCanvas [0x1c] freshLayer (cutAnswer 115) =
      ⟨some (List.replicate 90 1), [], []⟩ := by decide +kernel
  rw [hhanded]
  intro hcomplete
  have hlength := hcomplete.perm.length_eq
  exact absurd hlength (by decide)

end Scshr.Protocol
