import Scshr.Media.HevcSlice
import Scshr.Media.QualityGate

/-! The decoder for AVC (`VideoDecoder` of `media/decoder.cpp`): the bounded queue, the worker's
`decode_one`, the flags that hold slices back, and recovery.  What libavcodec answers is an
input.  Slices carry the number of the `feed_nalu` call they came with, and every operation
says what it submitted, published and threw away. -/
namespace Scshr.Media

open Common List

/-- `avc_nal_is_keyframe`: an IDR slice, or an I slice of type 1. -/
def avcNalIsKeyframe (nal : Bytes) : Bool :=
  if nal.length < 2 then false
  else
    let t := avcNalType (nal.getD 0 0)
    if t = 5 then true
    else if t ≠ 1 then false
    else
      let rbsp := removeEmulationPrevention ((nal.drop 1).take 64)
      let parse : BitParser Bool := do
        let _ ← BitReader.readUe
        let sliceType ← BitReader.readUe
        let overrun ← BitReader.overrun
        pure (!overrun && (sliceType == 2 || sliceType == 7))
      (parse ⟨rbsp, 0⟩).1

def avcNalSps : UInt8 := 7

def avcNalPps : UInt8 := 8

def queueCap : Nat := 64

def hwaccelSilentNaluLimit : Nat := 60

structure QueuedNal where
  data : Bytes
  tile : Int
  index : Nat
  deriving DecidableEq

/-- The members of `VideoDecoder` that AVC slices read and change.  A codec context is the number
of contexts created before it. -/
structure AvcDecoder where
  numTiles : Nat
  pertileRecovery : Bool
  hasParams : Bool
  ctx : Option Nat := none
  contexts : Nat := 0
  awaitKey : Bool := true
  referenceResetPending : Bool := false
  recoveryInProgress : Bool := false
  dpbHasIdr : Bool := false
  tilesAwaitIdr : Finset Int := ∅
  framesSinceKeyframe : Nat := 0
  eagainStreak : Nat := 0
  silentNalus : Nat := 0
  gate : FrameQualityGate
  nextPts : Nat := 0
  inflight : List (Nat × Int) := []
  queue : List QueuedNal := []
  fed : Nat := 0
  deriving DecidableEq

inductive DecoderTrace where
  | submitted (index : Nat) (key : Bool) (ctx : Nat)
  | published (tile : Int)
  | dropped (index : Nat)
  | drained (index : Nat)
  | restarted
  deriving DecidableEq, Repr

inductive SendResult where
  | accepted
  | again
  | failed
  deriving DecidableEq, Repr

/-- What libavcodec answers while one slice is decoded: whether a new context opens, the result of
`avcodec_send_packet`, and the time stamps of the frames that come out, with the time of each. -/
structure CodecRun where
  created : Bool
  send : SendResult
  frames : List (Nat × Int)
  now : Int
  deriving DecidableEq, Repr

namespace AvcDecoder

def createCodec (decoder : AvcDecoder) (created : Bool) : AvcDecoder :=
  if created then
    { decoder with
      ctx := some decoder.contexts
      contexts := decoder.contexts + 1
      nextPts := 0
      inflight := [] }
  else decoder

def destroyCodec (decoder : AvcDecoder) : AvcDecoder :=
  { decoder with ctx := none, inflight := [] }

def resetState (decoder : AvcDecoder) : AvcDecoder :=
  { decoder with
    gate := decoder.gate.reset
    tilesAwaitIdr := ∅
    dpbHasIdr := false
    awaitKey := true
    eagainStreak := 0
    silentNalus := 0
    referenceResetPending := false
    recoveryInProgress := false
    framesSinceKeyframe := 0 }

def drainQueue (decoder : AvcDecoder) : AvcDecoder × List DecoderTrace :=
  ({ decoder with queue := [] }, decoder.queue.map fun queued => .drained queued.index)

def restart (decoder : AvcDecoder) (created : Bool) : AvcDecoder × List DecoderTrace :=
  let (decoder, drained) := decoder.destroyCodec.resetState.drainQueue
  (if decoder.hasParams then decoder.createCodec created else decoder, .restarted :: drained)

def start (numTiles : Nat) (pertileRecovery : Bool) : AvcDecoder :=
  createCodec { numTiles, pertileRecovery, hasParams := true, gate := .new numTiles } true

def observeIdr (decoder : AvcDecoder) (now : Int) : AvcDecoder :=
  { decoder with
    gate := (List.range decoder.numTiles).foldl
      (fun gate (t : Nat) => gate.markIdrObserved t now false) decoder.gate }

def markError (decoder : AvcDecoder) (tile now : Int) : AvcDecoder :=
  { decoder with gate := decoder.gate.markDecodeError tile now true }

def admits (decoder : AvcDecoder) (nal : Bytes) (tile : Int) : Bool :=
  nal ≠ [] && decide (0 ≤ tile) && decide (tile < decoder.numTiles) &&
    avcNalType (nal.getD 0 0) ≠ avcNalSps && avcNalType (nal.getD 0 0) ≠ avcNalPps &&
    (!decoder.awaitKey || avcNalIsKeyframe nal)

/-- Slots that are not in the queue are free between two operations. -/
def feedNalu (decoder : AvcDecoder) (nal : Bytes) (tile now : Int) :
    AvcDecoder × List DecoderTrace :=
  let counted := { decoder with fed := decoder.fed + 1 }
  if !decoder.admits nal tile then (counted, [])
  else if decoder.queue.length < queueCap then
    ({ counted with queue := decoder.queue ++ [⟨nal, tile, decoder.fed⟩] }, [])
  else (counted.markError tile now, [.dropped decoder.fed])

def markReferenceChainBroken (decoder : AvcDecoder) : AvcDecoder :=
  { decoder with referenceResetPending := true, awaitKey := true }

def brokenTiles (decoder : AvcDecoder) : Finset Int :=
  let tiles := ((List.range decoder.numTiles).map fun (t : Nat) => (t : Int)).toFinset
  let broken := tiles.filter fun t => 0 < (decoder.gate.tile t).badStreak
  if broken = ∅ then tiles else broken

def tryRecovery (decoder : AvcDecoder) : AvcDecoder × List DecoderTrace :=
  drainQueue
    { decoder with
      tilesAwaitIdr :=
        if decoder.pertileRecovery then decoder.tilesAwaitIdr ∪ decoder.brokenTiles
        else decoder.tilesAwaitIdr
      dpbHasIdr := if decoder.pertileRecovery then decoder.dpbHasIdr else false
      eagainStreak := 0 }

/-- `publish`: a frame of a break in progress is thrown away. -/
def publish (decoder : AvcDecoder) (tile tOut : Int) : AvcDecoder × List DecoderTrace :=
  if decoder.referenceResetPending then (decoder, [])
  else if decoder.dpbHasIdr then (decoder, [.published tile])
  else ({ decoder with dpbHasIdr := true }.observeIdr tOut, [.published tile])

/-- The loop over `avcodec_receive_frame`; a time stamp that is not in flight is passed over. -/
def receive (decoder : AvcDecoder) : List (Nat × Int) → AvcDecoder × Bool × List DecoderTrace
  | [] => (decoder, false, [])
  | (pts, tOut) :: frames =>
      match decoder.inflight.lookup pts with
      | none => decoder.receive frames
      | some tile =>
          let decoder :=
            { decoder with inflight := decoder.inflight.filter fun entry => entry.1 ≠ pts }
          let (decoder, shown) := decoder.publish tile tOut
          let (decoder, _, rest) := decoder.receive frames
          (decoder, true, shown ++ rest)

/-- The count of slices without output; too many start a recovery. -/
def countSilence (decoder : AvcDecoder) (published : Bool) (tile now : Int) :
    AvcDecoder × List DecoderTrace :=
  if published then
    ({ decoder with eagainStreak := 0, silentNalus := 0, recoveryInProgress := false }, [])
  else if hwaccelSilentNaluLimit < decoder.silentNalus + 1 && !decoder.recoveryInProgress then
    let (decoder, drained) :=
      ({ decoder with recoveryInProgress := true }.markError tile now).tryRecovery
    ({ decoder with silentNalus := 0 }, drained)
  else ({ decoder with silentNalus := decoder.silentNalus + 1 }, [])

def enterFlight (decoder : AvcDecoder) (tile : Int) : AvcDecoder :=
  let inflight := decoder.inflight ++ [(decoder.nextPts, tile)]
  { decoder with
    nextPts := decoder.nextPts + 1
    inflight := if 256 < inflight.length then inflight.drop (inflight.length - 64) else inflight }

def afterSend (decoder : AvcDecoder) (pts : Nat) (tile : Int) (key : Bool) (run : CodecRun) :
    AvcDecoder :=
  match run.send with
  | .accepted => decoder
  | .again => { decoder with eagainStreak := decoder.eagainStreak + 1 }
  | .failed =>
      let decoder :=
        { decoder with inflight := decoder.inflight.filter fun entry => entry.1 ≠ pts }.markError
          tile run.now
      if key then decoder.markReferenceChainBroken else decoder

def submit (decoder : AvcDecoder) (queued : QueuedNal) (key : Bool) (ctx : Nat) (run : CodecRun) :
    AvcDecoder × List DecoderTrace :=
  let sent := (decoder.enterFlight queued.tile).afterSend decoder.nextPts queued.tile key run
  let (decoder, published, shown) := sent.receive run.frames
  let (decoder, drained) := decoder.countSilence published queued.tile run.now
  (decoder, .submitted queued.index key ctx :: (shown ++ drained))

def rebuild (decoder : AvcDecoder) (key created : Bool) : AvcDecoder :=
  if key && decoder.referenceResetPending then
    createCodec
      { decoder.destroyCodec with referenceResetPending := false, framesSinceKeyframe := 0 }
      created
  else decoder

def noteSlice (decoder : AvcDecoder) (key : Bool) (now : Int) : AvcDecoder :=
  if key then { decoder with awaitKey := false, framesSinceKeyframe := 0 }.observeIdr now
  else { decoder with framesSinceKeyframe := decoder.framesSinceKeyframe + 1 }

def decodeOne (decoder : AvcDecoder) (queued : QueuedNal) (run : CodecRun) :
    AvcDecoder × List DecoderTrace :=
  let key := avcNalIsKeyframe queued.data
  if decoder.ctx = none ∨ queued.data = [] then (decoder, [])
  else if decoder.awaitKey && !key then (decoder, [])
  else
    let decoder := decoder.rebuild key run.created
    match decoder.ctx with
    | none => (decoder, [])
    | some ctx => (decoder.noteSlice key run.now).submit queued key ctx run

end AvcDecoder

inductive DecoderOp where
  | feed (nal : Bytes) (tile now : Int)
  | decode (run : CodecRun)
  | markBroken
  | recover
  | restart (created : Bool)
  deriving DecidableEq, Repr

namespace AvcDecoder

/-- `decode` is one round of the worker, which does nothing when the queue is empty. -/
def step (decoder : AvcDecoder) : DecoderOp → AvcDecoder × List DecoderTrace
  | .feed nal tile now => decoder.feedNalu nal tile now
  | .decode run =>
      match decoder.queue with
      | [] => (decoder, [])
      | queued :: queue => { decoder with queue := queue }.decodeOne queued run
  | .markBroken => (decoder.markReferenceChainBroken, [])
  | .recover => decoder.tryRecovery
  | .restart created => decoder.restart created

def run (decoder : AvcDecoder) : List DecoderOp → AvcDecoder × List DecoderTrace
  | [] => (decoder, [])
  | op :: ops =>
      let (decoder, first) := decoder.step op
      let (decoder, rest) := decoder.run ops
      (decoder, first ++ rest)

variable (decoder : AvcDecoder)

theorem run_cons (op : DecoderOp) (ops : List DecoderOp) :
    decoder.run (op :: ops) =
      (((decoder.step op).1.run ops).1, (decoder.step op).2 ++ ((decoder.step op).1.run ops).2) :=
  rfl

/-! ## What stays -/

structure SameFlow (before after : AvcDecoder) : Prop where
  ctx : after.ctx = before.ctx
  contexts : after.contexts = before.contexts
  awaitKey : after.awaitKey = before.awaitKey
  pending : after.referenceResetPending = before.referenceResetPending
  queue : after.queue = before.queue
  fed : after.fed = before.fed
  recovery : after.recoveryInProgress = before.recoveryInProgress
  silent : after.silentNalus = before.silentNalus

theorem SameFlow.trans (h : SameFlow first second) (h' : SameFlow second third) :
    SameFlow first third where
  ctx := h'.ctx.trans h.ctx
  contexts := h'.contexts.trans h.contexts
  awaitKey := h'.awaitKey.trans h.awaitKey
  pending := h'.pending.trans h.pending
  queue := h'.queue.trans h.queue
  fed := h'.fed.trans h.fed
  recovery := h'.recovery.trans h.recovery
  silent := h'.silent.trans h.silent

def Shows (trace : List DecoderTrace) : Prop := ∀ entry ∈ trace, ∃ tile, entry = .published tile

theorem publish_flow (tile tOut : Int) :
    SameFlow decoder (decoder.publish tile tOut).1 ∧ Shows (decoder.publish tile tOut).2 := by
  unfold publish
  split
  · exact ⟨⟨rfl, rfl, rfl, rfl, rfl, rfl, rfl, rfl⟩, fun _ h => absurd h not_mem_nil⟩
  · split
    · exact ⟨⟨rfl, rfl, rfl, rfl, rfl, rfl, rfl, rfl⟩,
        fun _ h => ⟨tile, mem_singleton.mp h⟩⟩
    · exact ⟨⟨rfl, rfl, rfl, rfl, rfl, rfl, rfl, rfl⟩,
        fun _ h => ⟨tile, mem_singleton.mp h⟩⟩

theorem receive_flow (frames : List (Nat × Int)) :
    SameFlow decoder (decoder.receive frames).1 ∧ Shows (decoder.receive frames).2.2 := by
  induction frames generalizing decoder with
  | nil => exact ⟨⟨rfl, rfl, rfl, rfl, rfl, rfl, rfl, rfl⟩, fun _ h => absurd h not_mem_nil⟩
  | cons frame frames ih =>
    obtain ⟨pts, tOut⟩ := frame
    rw [receive]
    cases decoder.inflight.lookup pts with
    | none => exact ih decoder
    | some tile =>
      dsimp only
      have hlanded : SameFlow decoder
          { decoder with inflight := decoder.inflight.filter fun entry => entry.1 ≠ pts } :=
        ⟨rfl, rfl, rfl, rfl, rfl, rfl, rfl, rfl⟩
      obtain ⟨hpublish, hshown⟩ := publish_flow
        { decoder with inflight := decoder.inflight.filter fun entry => entry.1 ≠ pts } tile tOut
      obtain ⟨hrest, hlater⟩ := ih (publish
        { decoder with inflight := decoder.inflight.filter fun entry => entry.1 ≠ pts }
        tile tOut).1
      refine ⟨(hlanded.trans hpublish).trans hrest, ?_⟩
      intro entry hentry
      exact (mem_append.mp hentry).elim (hshown entry) (hlater entry)

theorem afterSend_flow (pts : Nat) (tile : Int) (key : Bool) (run : CodecRun) :
    SameFlow decoder (decoder.afterSend pts tile key run) ∨
      key = true ∧ SameFlow decoder.markReferenceChainBroken
        (decoder.afterSend pts tile key run) := by
  unfold afterSend
  cases run.send with
  | accepted => exact .inl ⟨rfl, rfl, rfl, rfl, rfl, rfl, rfl, rfl⟩
  | again => exact .inl ⟨rfl, rfl, rfl, rfl, rfl, rfl, rfl, rfl⟩
  | failed =>
    cases key with
    | false => exact .inl ⟨rfl, rfl, rfl, rfl, rfl, rfl, rfl, rfl⟩
    | true => exact .inr ⟨rfl, rfl, rfl, rfl, rfl, rfl, rfl, rfl, rfl⟩

theorem feedNalu_flow (nal : Bytes) (tile now : Int) :
    let out := decoder.feedNalu nal tile now
    (out.1.ctx = decoder.ctx ∧ out.1.contexts = decoder.contexts ∧
      out.1.awaitKey = decoder.awaitKey ∧
      out.1.referenceResetPending = decoder.referenceResetPending ∧ out.1.fed = decoder.fed + 1) ∧
      (out.1.queue = decoder.queue ∧ out.2 = [] ∨
        out.1.queue = decoder.queue ++ [⟨nal, tile, decoder.fed⟩] ∧ out.2 = [] ∨
        (decoder.admits nal tile = true ∧ queueCap ≤ decoder.queue.length) ∧
          out.1.queue = decoder.queue ∧ out.2 = [.dropped decoder.fed]) := by
  unfold feedNalu
  dsimp only
  split
  · exact ⟨⟨rfl, rfl, rfl, rfl, rfl⟩, .inl ⟨rfl, rfl⟩⟩
  · next hadmits =>
    split
    · exact ⟨⟨rfl, rfl, rfl, rfl, rfl⟩, .inr (.inl ⟨rfl, rfl⟩)⟩
    · next hfull =>
      have hadmitted : decoder.admits nal tile = true := by
        simpa only [Bool.not_eq_true', Bool.not_eq_false] using hadmits
      exact ⟨⟨rfl, rfl, rfl, rfl, rfl⟩,
        .inr (.inr ⟨⟨hadmitted, Nat.not_lt.mp hfull⟩, rfl, rfl⟩)⟩

theorem restart_flow (created : Bool) :
    let out := decoder.restart created
    (out.1.awaitKey = true ∧ out.1.queue = [] ∧ out.1.fed = decoder.fed ∧
      decoder.contexts ≤ out.1.contexts) ∧
      out.2 = .restarted :: decoder.queue.map fun queued => .drained queued.index := by
  cases hparams : decoder.hasParams with
  | false =>
    have hout : decoder.restart created =
        ({ decoder.destroyCodec.resetState with queue := [] },
          .restarted :: decoder.queue.map fun queued => .drained queued.index) := by
      rw [restart]
      exact congrArg (·, _) (if_neg (by simp [resetState, destroyCodec, hparams]))
    rw [hout]
    exact ⟨⟨rfl, rfl, rfl, le_rfl⟩, rfl⟩
  | true =>
    have hout : decoder.restart created =
        ({ decoder.destroyCodec.resetState with queue := [] }.createCodec created,
          .restarted :: decoder.queue.map fun queued => .drained queued.index) := by
      rw [restart]
      exact congrArg (·, _) (if_pos (by simp [resetState, destroyCodec, hparams]))
    rw [hout]
    cases created with
    | false => exact ⟨⟨rfl, rfl, rfl, le_rfl⟩, rfl⟩
    | true => exact ⟨⟨rfl, rfl, rfl, Nat.le_succ _⟩, rfl⟩

theorem countSilence_flow (published : Bool) (tile now : Int) :
    let out := decoder.countSilence published tile now
    (out.1.fed = decoder.fed ∧ out.1.awaitKey = decoder.awaitKey) ∧
      (out.1.queue = decoder.queue ∧ out.2 = [] ∨
        hwaccelSilentNaluLimit ≤ decoder.silentNalus ∧ decoder.recoveryInProgress = false ∧
          out.1.queue = [] ∧ out.2 = decoder.queue.map fun queued => .drained queued.index) := by
  unfold countSilence
  split
  · exact ⟨⟨rfl, rfl⟩, .inl ⟨rfl, rfl⟩⟩
  · split
    · next hsilent =>
      simp only [Bool.and_eq_true, decide_eq_true_eq, Bool.not_eq_true'] at hsilent
      exact ⟨⟨rfl, rfl⟩, .inr ⟨by omega, hsilent.2, rfl, rfl⟩⟩
    · exact ⟨⟨rfl, rfl⟩, .inl ⟨rfl, rfl⟩⟩

theorem submit_flow (queued : QueuedNal) (key : Bool) (ctx : Nat) (run : CodecRun) :
    let out := decoder.submit queued key ctx run
    (out.1.fed = decoder.fed ∧ (out.1.awaitKey = false → decoder.awaitKey = false)) ∧
      ∃ shown drained, Shows shown ∧
        out.2 = .submitted queued.index key ctx :: (shown ++ drained) ∧
        (out.1.queue = decoder.queue ∧ drained = [] ∨
          hwaccelSilentNaluLimit ≤ decoder.silentNalus ∧ decoder.recoveryInProgress = false ∧
            out.1.queue = [] ∧
            drained = decoder.queue.map fun queued => .drained queued.index) := by
  let sent := (decoder.enterFlight queued.tile).afterSend decoder.nextPts queued.tile key run
  obtain ⟨hreceive, hshown⟩ := receive_flow sent run.frames
  obtain ⟨⟨hfed, hawait⟩, hqueue⟩ := countSilence_flow (sent.receive run.frames).1
    (sent.receive run.frames).2.1 queued.tile run.now
  have hsent : sent.fed = decoder.fed ∧ sent.queue = decoder.queue ∧
      sent.silentNalus = decoder.silentNalus ∧
      sent.recoveryInProgress = decoder.recoveryInProgress ∧
      (sent.awaitKey = false → decoder.awaitKey = false) := by
    rcases afterSend_flow (decoder.enterFlight queued.tile) decoder.nextPts queued.tile key run with
      h | ⟨-, h⟩
    · exact ⟨h.fed, h.queue, h.silent, h.recovery, fun hfalse => h.awaitKey.symm.trans hfalse⟩
    · exact ⟨h.fed, h.queue, h.silent, h.recovery,
        fun hfalse => Bool.noConfusion (h.awaitKey.symm.trans hfalse)⟩
  rw [hreceive.queue, hreceive.silent, hreceive.recovery, hsent.2.1, hsent.2.2.1,
    hsent.2.2.2.1] at hqueue
  refine ⟨⟨(hfed.trans hreceive.fed).trans hsent.1, ?_⟩, _, _, hshown, rfl, hqueue⟩
  intro hfalse
  exact hsent.2.2.2.2 ((hawait.trans hreceive.awaitKey).symm.trans hfalse)

theorem decodeOne_cases (queued : QueuedNal) (run : CodecRun) :
    (let out := decoder.decodeOne queued run;
      out.2 = [] ∧ (out.1 = decoder ∨ out.1.ctx = none ∧ out.1.contexts = decoder.contexts ∧
        out.1.awaitKey = decoder.awaitKey ∧ out.1.queue = decoder.queue ∧
        out.1.fed = decoder.fed)) ∨
    ∃ (ready : AvcDecoder) (ctx : Nat), decoder.decodeOne queued run =
        ready.submit queued (avcNalIsKeyframe queued.data) ctx run ∧
      decoder.ctx ≠ none ∧
      (ready.queue = decoder.queue ∧ ready.fed = decoder.fed ∧
        ready.silentNalus = decoder.silentNalus ∧
        ready.recoveryInProgress = decoder.recoveryInProgress) ∧
      (avcNalIsKeyframe queued.data = false →
        decoder.awaitKey = false ∧ ready.awaitKey = false) ∧
      (avcNalIsKeyframe queued.data = true → decoder.referenceResetPending = true →
        ctx = decoder.contexts) := by
  unfold decodeOne
  dsimp only
  split
  · exact .inl ⟨rfl, .inl rfl⟩
  · next hready =>
    have hctx : decoder.ctx ≠ none := fun hnone => hready (.inl hnone)
    split
    · exact .inl ⟨rfl, .inl rfl⟩
    · next hpass =>
      cases hkey : avcNalIsKeyframe queued.data with
      | false =>
        have hrebuild : decoder.rebuild false run.created = decoder := rfl
        rw [hkey] at hpass
        have hawait : decoder.awaitKey = false := by simpa using hpass
        obtain ⟨ctx, hsome⟩ := Option.ne_none_iff_exists'.mp hctx
        right
        refine ⟨decoder.noteSlice false run.now, ctx, ?_, hctx, ⟨rfl, rfl, rfl, rfl⟩,
          fun _ => ⟨hawait, hawait⟩, fun h => Bool.noConfusion h⟩
        simp only [hrebuild, hsome]
      | true =>
        cases hpending : decoder.referenceResetPending with
        | false =>
          have hrebuild : decoder.rebuild true run.created = decoder := by simp [rebuild, hpending]
          obtain ⟨ctx, hsome⟩ := Option.ne_none_iff_exists'.mp hctx
          right
          refine ⟨decoder.noteSlice true run.now, ctx, ?_, hctx, ⟨rfl, rfl, rfl, rfl⟩,
            fun h => Bool.noConfusion h, fun _ h => Bool.noConfusion h⟩
          simp only [hrebuild, hsome]
        | true =>
          cases hcreated : run.created with
          | false =>
            have hrebuild : decoder.rebuild true false = { decoder.destroyCodec with
                referenceResetPending := false, framesSinceKeyframe := 0 } := by
              simp [rebuild, hpending, createCodec]
            left
            rw [hrebuild]
            exact ⟨rfl, .inr ⟨rfl, rfl, rfl, rfl, rfl⟩⟩
          | true =>
            have hrebuild : decoder.rebuild true true = createCodec { decoder.destroyCodec with
                referenceResetPending := false, framesSinceKeyframe := 0 } true := by
              simp [rebuild, hpending]
            right
            rw [hrebuild]
            exact ⟨_, decoder.contexts, rfl, hctx, ⟨rfl, rfl, rfl, rfl⟩,
              fun h => Bool.noConfusion h, fun _ _ => rfl⟩

end AvcDecoder

end Scshr.Media
