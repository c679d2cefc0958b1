import Scshr.Media.AvcDecoder

/-! The reference chain of AVC.  A break that is marked freezes the picture until a keyframe is
submitted on a new context.  A slice that is lost at the queue or in a recovery is not marked:
the slices behind it are submitted all the same. -/
namespace Scshr.Media.AvcDecoder

open Common List

/-! ## A marked break -/

/-- Up to the first submission nothing is published, and the first submission is a keyframe; if the
decoder was not restarted before, its context is not one of the first `base`. -/
def Freezes (base : Nat) : Bool → List DecoderTrace → Prop
  | _, [] => True
  | restarted, .submitted _ key ctx :: _ => key = true ∧ (restarted = false → base ≤ ctx)
  | _, .published _ :: _ => False
  | _, .restarted :: trace => Freezes base true trace
  | restarted, .dropped _ :: trace => Freezes base restarted trace
  | restarted, .drained _ :: trace => Freezes base restarted trace

structure Held (base : Nat) (restarted : Bool) (decoder : AvcDecoder) : Prop where
  awaitKey : decoder.awaitKey = true
  contexts : base ≤ decoder.contexts
  poisoned : restarted = false → decoder.referenceResetPending = true ∨ decoder.ctx = none

theorem freezes_drained (base : Nat) (restarted : Bool) (queue : List QueuedNal)
    (h : Freezes base restarted rest) :
    Freezes base restarted ((queue.map fun queued => .drained queued.index) ++ rest) := by
  induction queue with
  | nil => exact h
  | cons queued queue ih => exact ih

section Freeze

variable {base : Nat} {restarted : Bool} {decoder : AvcDecoder} {rest : List DecoderTrace}

theorem Held.feed (h : Held base restarted decoder) (nal : Bytes) (tile now : Int)
    (hrest : Held base restarted (decoder.feedNalu nal tile now).1 → Freezes base restarted rest) :
    Freezes base restarted ((decoder.feedNalu nal tile now).2 ++ rest) := by
  obtain ⟨⟨hctx, hcontexts, hawait, hpending, -⟩, htrace⟩ := feedNalu_flow decoder nal tile now
  have hnext := hrest ⟨hawait.trans h.awaitKey, hcontexts ▸ h.contexts, by
    rw [hctx, hpending]
    exact h.poisoned⟩
  rcases htrace with ⟨-, htrace⟩ | ⟨-, htrace⟩ | ⟨-, -, htrace⟩
  · rwa [htrace]
  · rwa [htrace]
  · rw [htrace]
    exact hnext

theorem Held.decodeOne (h : Held base restarted decoder) (queued : QueuedNal) (run : CodecRun)
    (hrest : Held base restarted (decoder.decodeOne queued run).1 → Freezes base restarted rest) :
    Freezes base restarted ((decoder.decodeOne queued run).2 ++ rest) := by
  rcases decodeOne_cases decoder queued run with
    ⟨htrace, hstate⟩ | ⟨ready, ctx, hout, hctx, -, hslice, hkey⟩
  · rw [htrace]
    apply hrest
    rcases hstate with hsame | ⟨hnone, hcontexts, hawait, -⟩
    · rw [hsame]
      exact h
    · exact ⟨hawait.trans h.awaitKey, hcontexts ▸ h.contexts, fun _ => .inr hnone⟩
  · obtain ⟨-, shown, drained, -, htrace, -⟩ :=
      submit_flow ready queued (avcNalIsKeyframe queued.data) ctx run
    rw [hout, htrace]
    cases hslot : avcNalIsKeyframe queued.data with
    | false => exact Bool.noConfusion (h.awaitKey.symm.trans (hslice hslot).1)
    | true =>
      refine ⟨rfl, fun hsteady => ?_⟩
      have hpending := (h.poisoned hsteady).resolve_right hctx
      rw [hkey hslot hpending]
      exact h.contexts

theorem Held.step (h : Held base restarted decoder) (op : DecoderOp)
    (hrest : ∀ restarted, Held base restarted (decoder.step op).1 → Freezes base restarted rest) :
    Freezes base restarted ((decoder.step op).2 ++ rest) := by
  cases op with
  | feed nal tile now => exact h.feed nal tile now (hrest restarted)
  | decode run =>
    unfold AvcDecoder.step at hrest ⊢
    cases hqueue : decoder.queue with
    | nil =>
      simp only [hqueue] at hrest ⊢
      exact hrest restarted h
    | cons queued queue =>
      simp only [hqueue] at hrest ⊢
      have hpopped : Held base restarted { decoder with queue := queue } :=
        ⟨h.awaitKey, h.contexts, h.poisoned⟩
      exact hpopped.decodeOne queued run (hrest restarted)
  | markBroken => exact hrest restarted ⟨rfl, h.contexts, fun _ => .inl rfl⟩
  | recover =>
    exact freezes_drained base restarted decoder.queue
      (hrest restarted ⟨h.awaitKey, h.contexts, h.poisoned⟩)
  | restart created =>
    obtain ⟨⟨hawait, -, -, hcontexts⟩, htrace⟩ := restart_flow decoder created
    rw [AvcDecoder.step] at hrest ⊢
    rw [htrace]
    exact freezes_drained base true decoder.queue
      (hrest true ⟨hawait, h.contexts.trans hcontexts, fun hsteady => Bool.noConfusion hsteady⟩)

theorem Held.run (h : Held base restarted decoder) (ops : List DecoderOp) :
    Freezes base restarted (decoder.run ops).2 := by
  induction ops generalizing decoder restarted with
  | nil => trivial
  | cons op ops ih =>
    rw [run_cons]
    exact h.step op fun _ hnext => ih hnext

end Freeze

/-- A marked break freezes the picture, in every state and whatever is done afterwards. -/
theorem marked_break_freezes (decoder : AvcDecoder) (ops : List DecoderOp) :
    Freezes decoder.contexts false (decoder.run (.markBroken :: ops)).2 := by
  rw [run_cons]
  have hheld : Held decoder.contexts false decoder.markReferenceChainBroken :=
    ⟨rfl, le_rfl, fun _ => .inl rfl⟩
  exact hheld.run ops

/-! ## Slices that are lost unmarked -/

def afterEntry (key : Option Nat) (lost : List Nat) : DecoderTrace → Option Nat × List Nat
  | .submitted index isKey _ => (if isKey then some index else key, lost)
  | .dropped index => (key, index :: lost)
  | .drained index => (key, index :: lost)
  | _ => (key, lost)

/-- Whenever a slice that is no keyframe is submitted, none was lost between the keyframe
submitted last and it. -/
inductive Intact : Option Nat → List Nat → List DecoderTrace → Prop
  | nil (key : Option Nat) (lost : List Nat) : Intact key lost []
  | cons {key : Option Nat} {lost : List Nat} {entry : DecoderTrace} {trace : List DecoderTrace}
      (hentry : ∀ index ctx first, entry = .submitted index false ctx → key = some first →
        ∀ slice ∈ lost, ¬ (first < slice ∧ slice < index))
      (hrest : Intact (afterEntry key lost entry).1 (afterEntry key lost entry).2 trace) :
      Intact key lost (entry :: trace)

/-- The condition on an operation: a slice that is let through finds room in the queue, and a
recovery finds the queue empty or the decoder waiting for a keyframe; a decoded slice starts a
recovery only if the silence has lasted for the whole limit. -/
def Spares (decoder : AvcDecoder) : DecoderOp → Prop
  | .feed nal tile _ => decoder.admits nal tile = true → decoder.queue.length < queueCap
  | .decode _ =>
      decoder.queue.tail = [] ∨ decoder.silentNalus < hwaccelSilentNaluLimit ∨
        decoder.recoveryInProgress = true
  | .recover => decoder.queue = [] ∨ decoder.awaitKey = true
  | _ => True

def SparesAll : AvcDecoder → List DecoderOp → Prop
  | _, [] => True
  | decoder, op :: ops => decoder.Spares op ∧ SparesAll (decoder.step op).1 ops

instance decidableSpares (decoder : AvcDecoder) : (op : DecoderOp) → Decidable (decoder.Spares op)
  | .feed _ _ _ => inferInstanceAs (Decidable (_ → _))
  | .decode _ => inferInstanceAs (Decidable (_ ∨ _ ∨ _))
  | .markBroken => inferInstanceAs (Decidable True)
  | .recover => inferInstanceAs (Decidable (_ ∨ _))
  | .restart _ => inferInstanceAs (Decidable True)

instance decidableSparesAll :
    (decoder : AvcDecoder) → (ops : List DecoderOp) → Decidable (decoder.SparesAll ops)
  | _, [] => inferInstanceAs (Decidable True)
  | decoder, op :: ops =>
      have := decidableSparesAll (decoder.step op).1 ops
      inferInstanceAs (Decidable (_ ∧ _))

/-- What holds between two operations: all that was lost came before what is queued, and before
the last keyframe unless the decoder waits for the next. -/
structure Chained (key : Option Nat) (lost : List Nat) (decoder : AvcDecoder) : Prop where
  lostFed : ∀ slice ∈ lost, slice < decoder.fed
  queueFed : ∀ queued ∈ decoder.queue, queued.index < decoder.fed
  lostQueue : ∀ slice ∈ lost, ∀ queued ∈ decoder.queue, slice < queued.index
  live : decoder.awaitKey = false → ∃ first, key = some first ∧ ∀ slice ∈ lost, slice < first

section Chain

variable {key : Option Nat} {lost : List Nat} {decoder : AvcDecoder} {rest : List DecoderTrace}

theorem intact_cons (hentry : ∀ index ctx, entry ≠ .submitted index false ctx)
    (h : Intact (afterEntry key lost entry).1 (afterEntry key lost entry).2 trace) :
    Intact key lost (entry :: trace) :=
  .cons (fun index ctx _ hsame => absurd hsame (hentry index ctx)) h

theorem intact_shows (hshown : Shows shown) (h : Intact key lost rest) :
    Intact key lost (shown ++ rest) := by
  induction shown with
  | nil => exact h
  | cons entry shown ih =>
    obtain ⟨tile, rfl⟩ := hshown entry mem_cons_self
    exact intact_cons (fun _ _ => nofun)
      (ih fun later hlater => hshown later (mem_cons_of_mem _ hlater))

theorem intact_drained (queue : List QueuedNal)
    (h : ∀ gone, (∀ slice ∈ gone, slice ∈ lost ∨ ∃ queued ∈ queue, slice = queued.index) →
      Intact key gone rest) :
    Intact key lost ((queue.map fun queued => .drained queued.index) ++ rest) := by
  induction queue generalizing lost with
  | nil => exact h lost fun slice hslice => .inl hslice
  | cons queued queue ih =>
    refine intact_cons (fun _ _ => nofun) (ih fun gone hgone => h gone ?_)
    intro slice hslice
    rcases hgone slice hslice with hlost | ⟨later, hlater, rfl⟩
    · rcases mem_cons.mp hlost with rfl | hbefore
      · exact .inr ⟨queued, mem_cons_self, rfl⟩
      · exact .inl hbefore
    · exact .inr ⟨later, mem_cons_of_mem _ hlater, rfl⟩

theorem Chained.feed (h : Chained key lost decoder) (nal : Bytes) (tile now : Int)
    (hspares : decoder.Spares (.feed nal tile now)) :
    Chained key lost (decoder.feedNalu nal tile now).1 ∧
      (decoder.feedNalu nal tile now).2 = [] := by
  obtain ⟨⟨-, -, hawait, -, hfed⟩, hqueue⟩ := feedNalu_flow decoder nal tile now
  have hlive := h.live
  rw [← hawait] at hlive
  rcases hqueue with ⟨hqueue, htrace⟩ | ⟨hqueue, htrace⟩ | ⟨⟨hadmits, hfull⟩, -⟩
  · refine ⟨⟨?_, ?_, ?_, hlive⟩, htrace⟩
    · intro slice hslice
      exact hfed ▸ Nat.lt_succ_of_lt (h.lostFed slice hslice)
    · intro queued hqueued
      exact hfed ▸ Nat.lt_succ_of_lt (h.queueFed queued (hqueue ▸ hqueued))
    · rw [hqueue]
      exact h.lostQueue
  · refine ⟨⟨?_, ?_, ?_, hlive⟩, htrace⟩
    · intro slice hslice
      exact hfed ▸ Nat.lt_succ_of_lt (h.lostFed slice hslice)
    · intro queued hqueued
      rw [hqueue, mem_append, mem_singleton] at hqueued
      rw [hfed]
      rcases hqueued with hbefore | rfl
      · exact Nat.lt_succ_of_lt (h.queueFed queued hbefore)
      · exact Nat.lt_succ_self _
    · intro slice hslice queued hqueued
      rw [hqueue, mem_append, mem_singleton] at hqueued
      rcases hqueued with hbefore | rfl
      · exact h.lostQueue slice hslice queued hbefore
      · exact h.lostFed slice hslice
  · exact absurd (hspares hadmits) (Nat.not_lt.mpr hfull)

theorem Chained.decodeOne {queue : List QueuedNal}
    (h : Chained key lost { decoder with queue := queued :: queue }) (run : CodecRun)
    (hspares : queue = [] ∨ decoder.silentNalus < hwaccelSilentNaluLimit ∨
      decoder.recoveryInProgress = true)
    (hrest : ∀ key, Chained key lost
      (AvcDecoder.decodeOne { decoder with queue := queue } queued run).1 → Intact key lost rest) :
    Intact key lost
      ((AvcDecoder.decodeOne { decoder with queue := queue } queued run).2 ++ rest) := by
  have hlostQueue : ∀ slice ∈ lost, ∀ later ∈ queue, slice < later.index :=
    fun slice hslice later hlater => h.lostQueue slice hslice later (mem_cons_of_mem _ hlater)
  have hqueueFed : ∀ later ∈ queue, later.index < decoder.fed :=
    fun later hlater => h.queueFed later (mem_cons_of_mem _ hlater)
  rcases decodeOne_cases { decoder with queue := queue } queued run with
    ⟨htrace, hstate⟩ | ⟨ready, ctx, hout, -, ⟨hqueue, hfed, hsilent, hrecovery⟩, hslice, -⟩
  · rw [htrace]
    apply hrest key
    rcases hstate with hsame | ⟨-, -, hawait, hqueue, hfed⟩
    · rw [hsame]
      exact ⟨h.lostFed, hqueueFed, hlostQueue, h.live⟩
    · refine ⟨?_, ?_, ?_, fun hfalse => h.live (hawait.symm.trans hfalse)⟩
      · rw [hfed]
        exact h.lostFed
      · rw [hfed, hqueue]
        exact hqueueFed
      · rw [hqueue]
        exact hlostQueue
  · obtain ⟨⟨hsubmitFed, hsubmitAwait⟩, shown, drained, hshown, htrace, hdrained⟩ :=
      submit_flow ready queued (avcNalIsKeyframe queued.data) ctx run
    -- the condition leaves the queue as it is
    have hkept : (ready.submit queued (avcNalIsKeyframe queued.data) ctx run).1.queue = queue ∧
        drained = [] := by
      rw [hqueue, hsilent, hrecovery] at hdrained
      rcases hdrained with hkept | ⟨hlimit, hfresh, hempty, hall⟩
      · exact hkept
      · rcases hspares with rfl | hshort | hbusy
        · exact ⟨hempty, hall⟩
        · exact absurd hlimit (Nat.not_le.mpr hshort)
        · exact Bool.noConfusion (hbusy.symm.trans hfresh)
    have hnext : ∀ newest,
        ((ready.submit queued (avcNalIsKeyframe queued.data) ctx run).1.awaitKey = false →
          ∃ first, newest = some first ∧ ∀ slice ∈ lost, slice < first) →
        Intact newest lost rest := by
      intro newest hlive
      apply hrest newest
      rw [hout]
      refine ⟨?_, ?_, ?_, hlive⟩
      · rw [hsubmitFed, hfed]
        exact h.lostFed
      · rw [hsubmitFed, hfed, hkept.1]
        exact hqueueFed
      · rw [hkept.1]
        exact hlostQueue
    rw [hout, htrace, hkept.2, append_nil, cons_append]
    cases hkey : avcNalIsKeyframe queued.data with
    | true =>
      rw [hkey] at hnext
      refine intact_cons (fun _ _ => nofun) (intact_shows hshown (hnext (some queued.index) ?_))
      exact fun _ => ⟨queued.index, rfl,
        fun slice hlost => h.lostQueue slice hlost queued mem_cons_self⟩
    | false =>
      obtain ⟨hawait, hready⟩ := hslice hkey
      obtain ⟨first, hfirst, hbefore⟩ := h.live hawait
      refine .cons ?_ (intact_shows hshown (hnext key fun _ => ⟨first, hfirst, hbefore⟩))
      intro index _ other _ hother slice hlost hbetween
      obtain rfl := Option.some_inj.mp (hfirst.symm.trans hother)
      exact Nat.lt_asymm hbetween.1 (hbefore slice hlost)

theorem Chained.drained (drainedTo : AvcDecoder) (h : Chained key lost decoder)
    (hfed : drainedTo.fed = decoder.fed) (hqueue : drainedTo.queue = [])
    (hawait : drainedTo.awaitKey = true)
    (hrest : ∀ gone, Chained key gone drainedTo → Intact key gone rest) :
    Intact key lost ((decoder.queue.map fun queued => .drained queued.index) ++ rest) := by
  apply intact_drained
  intro gone hgone
  apply hrest gone
  refine ⟨?_, ?_, ?_, fun hfalse => Bool.noConfusion (hawait.symm.trans hfalse)⟩
  · intro slice hslice
    rw [hfed]
    rcases hgone slice hslice with hlost | ⟨queued, hqueued, rfl⟩
    · exact h.lostFed slice hlost
    · exact h.queueFed queued hqueued
  · rw [hqueue]
    exact fun _ hnone => absurd hnone not_mem_nil
  · rw [hqueue]
    exact fun _ _ _ hnone => absurd hnone not_mem_nil

theorem Chained.step (h : Chained key lost decoder) (op : DecoderOp) (hspares : decoder.Spares op)
    (hrest : ∀ key lost, Chained key lost (decoder.step op).1 → Intact key lost rest) :
    Intact key lost ((decoder.step op).2 ++ rest) := by
  cases op with
  | feed nal tile now =>
    obtain ⟨hnext, htrace⟩ := h.feed nal tile now hspares
    rw [AvcDecoder.step] at hrest ⊢
    rw [htrace]
    exact hrest key lost hnext
  | decode run =>
    unfold AvcDecoder.step at hrest ⊢
    cases hqueue : decoder.queue with
    | nil =>
      simp only [hqueue] at hrest ⊢
      exact hrest key lost h
    | cons queued queue =>
      simp only [hqueue] at hrest ⊢
      have hspares' : decoder.queue.tail = [] ∨ _ := hspares
      rw [hqueue] at hspares'
      have hwhole : Chained key lost { decoder with queue := queued :: queue } := by
        rw [← hqueue]
        exact h
      exact hwhole.decodeOne run hspares' fun newest => hrest newest lost
  | markBroken =>
    exact hrest key lost ⟨h.lostFed, h.queueFed, h.lostQueue, fun hfalse => Bool.noConfusion hfalse⟩
  | recover =>
    have htrace : (decoder.step .recover).2 =
        decoder.queue.map fun queued => .drained queued.index := rfl
    rw [htrace]
    rcases hspares with hempty | hawait
    · rw [hempty]
      apply hrest key lost
      exact ⟨h.lostFed, fun _ hnone => absurd hnone not_mem_nil,
        fun _ _ _ hnone => absurd hnone not_mem_nil, h.live⟩
    · exact h.drained (decoder.step .recover).1 rfl rfl hawait fun gone => hrest key gone
  | restart created =>
    obtain ⟨⟨hawait, hqueue, hfed, -⟩, htrace⟩ := restart_flow decoder created
    rw [AvcDecoder.step] at hrest ⊢
    rw [htrace]
    exact intact_cons (fun _ _ => nofun)
      (h.drained (decoder.restart created).1 hfed hqueue hawait fun gone => hrest key gone)

theorem Chained.run (h : Chained key lost decoder) (hspares : decoder.SparesAll ops) :
    Intact key lost (decoder.run ops).2 := by
  induction ops generalizing decoder key lost with
  | nil => exact .nil key lost
  | cons op ops ih =>
    rw [run_cons]
    exact h.step op hspares.1 fun _ _ hnext => ih hnext hspares.2

end Chain

/-- In every run whose operations meet the condition the reference chain is intact. -/
theorem reference_chain_intact (numTiles : Nat) (pertileRecovery : Bool) (ops : List DecoderOp)
    (hspares : (start numTiles pertileRecovery).SparesAll ops) :
    Intact none [] ((start numTiles pertileRecovery).run ops).2 := by
  have hstart : Chained none [] (start numTiles pertileRecovery) :=
    ⟨fun _ hnone => absurd hnone not_mem_nil, fun _ hnone => absurd hnone not_mem_nil,
      fun _ hnone => absurd hnone not_mem_nil, fun hfalse => Bool.noConfusion hfalse⟩
  exact hstart.run hspares

def keySlice : Bytes := [0x65, 0x88]

def predictedSlice : Bytes := [0x41, 0xC0]

def plainRun (pts : Nat) : CodecRun := ⟨true, .accepted, [(pts, 0)], 0⟩

def plainOps : List DecoderOp :=
  [.feed keySlice 0 0, .decode (plainRun 0), .feed predictedSlice 0 0, .decode (plainRun 1)]

theorem reference_chain_intact_plain :
    (start 1 true).SparesAll plainOps ∧ Intact none [] ((start 1 true).run plainOps).2 := by
  have hspares : (start 1 true).SparesAll plainOps := by decide +kernel
  exact ⟨hspares, reference_chain_intact 1 true plainOps hspares⟩

/-- A recovery drains the first slice behind the keyframe; the second, which refers to it, is
submitted. -/
theorem drained_slice_needed :
    ((start 1 true).run [.feed keySlice 0 0, .decode (plainRun 0), .feed predictedSlice 0 0,
      .recover, .feed predictedSlice 0 0, .decode (plainRun 1)]).2 =
        [.submitted 0 true 0, .published 0, .drained 1, .submitted 2 false 0, .published 0] ∧
    ¬ Intact none []
      [.submitted 0 true 0, .published 0, .drained 1, .submitted 2 false 0, .published 0] := by
  constructor
  · decide +kernel
  · intro h
    cases h with
    | cons _ h =>
      cases h with
      | cons _ h =>
        cases h with
        | cons _ h =>
          cases h with
          | cons hentry _ => exact hentry 2 0 0 rfl rfl 1 mem_cons_self ⟨by decide, by decide⟩

end Scshr.Media.AvcDecoder
