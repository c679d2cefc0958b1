import Scshr.Protocol.Offers

/-! When the protobuf walks advance.  A length near `2 ^ 64` passes the bounds
check of a length-delimited field and takes the position back, or asks for a
subspan that leaves the blob; every other field moves the position forward. -/
namespace Scshr.Protocol.Offers

open Common Lib

/-- An iteration moves its loop's position forward.  Entering the nested loop is
part of an iteration of the outer one, which ends when the nested loop does. -/
def Advances : CanvasState → CanvasState → Prop
  | .fields pos _, .fields pos' _ => pos < pos'
  | .fields _ _, .message _ _ _ _ _ => True
  | .message _ _ _ sp _, .message _ _ _ sp' _ => sp < sp'
  | .message pos _ _ _ _, .fields pos' _ => pos < pos'

/-- The field at a position does no harm: the end of a length-delimited field is
computed without wrap-around, or it still lies behind the field's start and its
bytes are not asked for (or asked for by the length that means "the rest"). -/
def Harmless (d : Bytes) (target : Option Nat) (pos : Nat) : Prop :=
  match readField d pos with
  | some ⟨number, .bytes start len, _⟩ =>
      start + len < 2 ^ 64 ∨
        pos < start + len - 2 ^ 64 ∧ (target = some number → len = 2 ^ 64 - 1)
  | _ => True

def CanvasState.Harmless (d : Bytes) : CanvasState → Prop
  | .fields pos _ => Offers.Harmless d (some 5) pos
  | .message _ _ sub sp _ => Offers.Harmless sub none sp

section Fields

variable {d : Bytes} {pos : Nat}

theorem varintLoop_spec (h : varintLoop bytes shift val = some (v, taken)) (hval : val < 2 ^ 64) :
    1 ≤ taken ∧ taken ≤ bytes.length ∧ v < 2 ^ 64 := by
  induction bytes generalizing shift val v taken with
  | nil => simp [varintLoop] at h
  | cons b rest ih =>
    have hnext : (if shift < 64 then val ||| sizeT ((b &&& 0x7F).toNat <<< shift) else val)
        < 2 ^ 64 := by
      split
      · exact Nat.or_lt_two_pow hval (Nat.mod_lt _ (by decide))
      · exact hval
    simp only [varintLoop] at h
    split at h
    · simp only [Option.some.injEq, Prod.mk.injEq] at h
      obtain ⟨rfl, rfl⟩ := h
      exact ⟨le_refl 1, by simp, hnext⟩
    · split at h
      · cases h
      · obtain ⟨⟨v', taken'⟩, hrest, hmap⟩ := Option.map_eq_some_iff.mp h
        simp only [Prod.mk.injEq] at hmap
        obtain ⟨rfl, rfl⟩ := hmap
        have := ih hrest hnext
        simp only [List.length_cons]
        omega

theorem readVarint_spec (h : readVarint d pos = some (v, next)) :
    pos < next ∧ next ≤ d.length ∧ v < 2 ^ 64 := by
  obtain ⟨⟨v', taken⟩, hloop, hmap⟩ := Option.map_eq_some_iff.mp h
  simp only [Prod.mk.injEq] at hmap
  obtain ⟨rfl, rfl⟩ := hmap
  obtain ⟨hone, hle, hv⟩ := varintLoop_spec hloop (by decide)
  rw [List.length_drop] at hle
  exact ⟨by omega, by omega, hv⟩

theorem readField_spec (hd : d.length < 2 ^ 63) (h : readField d pos = some field) :
    match field.payload with
    | .bytes start len => pos + 2 ≤ start ∧ start ≤ d.length ∧ len < 2 ^ 64 ∧
        field.next = sizeT (start + len) ∧ field.next ≤ d.length
    | _ => pos < field.next := by
  unfold readField at h
  obtain ⟨⟨tag, mid⟩, htag, h⟩ := Option.bind_eq_some_iff.mp h
  obtain ⟨hmid, hend, -⟩ := readVarint_spec htag
  have hsmall : ∀ width, width ≤ 8 → sizeT (mid + width) = mid + width := by
    intro width hwidth
    exact Nat.mod_eq_of_lt (by omega)
  dsimp only at h
  unfold readPayload at h
  split at h
  · obtain ⟨⟨value, last⟩, hvalue, h⟩ := Option.bind_eq_some_iff.mp h
    cases h
    exact hmid.trans (readVarint_spec hvalue).1
  · obtain ⟨⟨len, last⟩, hlen, h⟩ := Option.bind_eq_some_iff.mp h
    obtain ⟨hlast, hroom, hlt⟩ := readVarint_spec hlen
    dsimp only at h
    split at h
    · cases h
    · rename_i hcheck
      cases h
      exact ⟨by omega, hroom, hlt, rfl, Nat.le_of_not_lt hcheck⟩
  · cases h
    show pos < sizeT (mid + 8)
    rw [hsmall 8 (by omega)]
    omega
  · cases h
    show pos < sizeT (mid + 4)
    rw [hsmall 4 (by omega)]
    omega
  · cases h

theorem readField_of_le (h : d.length ≤ pos) : readField d pos = none := by
  simp [readField, readVarint, List.drop_eq_nil_of_le h, varintLoop]

theorem subspan_cases (d : Bytes) (start len : Nat) :
    (∃ sub, subspan d start len = some sub ∧ sub.length ≤ d.length ∧
      (len = 2 ^ 64 - 1 ∨ start + len ≤ d.length)) ∨
    (subspan d start len = none ∧ len ≠ 2 ^ 64 - 1 ∧ d.length < start + len) := by
  unfold subspan
  by_cases hall : len = 2 ^ 64 - 1
  · exact .inl ⟨d.drop start, by rw [if_pos hall], by simp, .inl hall⟩
  by_cases hroom : start + len ≤ d.length
  · refine .inl ⟨(d.drop start).take len, by rw [if_neg hall, if_pos hroom], ?_, .inr hroom⟩
    simp only [List.length_take, List.length_drop]
    omega
  · exact .inr ⟨by rw [if_neg hall, if_neg hroom], hall, Nat.lt_of_not_le hroom⟩

end Fields

section Visits

variable {d : Bytes} {target : Option Nat} {pos : Nat}

inductive Finds (d : Bytes) (target : Option Nat) (pos : Nat) : Visit → Prop
  | stop (harmless : Harmless d target pos) : Finds d target pos .stop
  | skip (field : Field) (inside : pos < d.length)
      (harmless : Harmless d target pos ↔ pos < field.next) : Finds d target pos (.skip field)
  | enter (field : Field) (sub : Bytes) (inside : pos < d.length) (short : sub.length ≤ d.length)
      (named : target = some field.number) (harmless : Harmless d target pos)
      (advance : pos < field.next) : Finds d target pos (.enter field sub)
  | fault (asked : target ≠ none) (harmful : ¬ Harmless d target pos) : Finds d target pos .fault

theorem visit_finds (hd : d.length < 2 ^ 63) (target : Option Nat) (pos : Nat) :
    Finds d target pos (visit d target pos) := by
  unfold visit
  by_cases hpos : d.length ≤ pos
  · rw [if_pos hpos]
    exact .stop (by simp [Harmless, readField_of_le hpos])
  rw [if_neg hpos]
  have hinside := Nat.lt_of_not_le hpos
  cases hfield : readField d pos with
  | none => exact .stop (by simp [Harmless, hfield])
  | some field =>
    have hspec := readField_spec hd hfield
    obtain ⟨number, payload, next⟩ := field
    cases payload with
    | varint value => exact .skip _ hinside (by simpa [Harmless, hfield] using hspec)
    | fixed => exact .skip _ hinside (by simpa [Harmless, hfield] using hspec)
    | bytes start len =>
      obtain ⟨hstart, hroom, hlen, rfl, hend⟩ := hspec
      have hharm : Harmless d target pos ↔ start + len < 2 ^ 64 ∨
          pos < start + len - 2 ^ 64 ∧ (target = some number → len = 2 ^ 64 - 1) := by
        simp only [Harmless, hfield]
      simp only [sizeT] at hend
      by_cases hnamed : target = some number
      · simp only [hnamed, if_true, true_implies] at hharm ⊢
        rcases subspan_cases d start len with ⟨sub, hsub, hshort, hok⟩ | ⟨hsub, hne, hout⟩
        · rw [hsub]
          refine .enter _ sub hinside hshort rfl (hharm.mpr ?_) ?_
          · omega
          · simp only [sizeT]
            omega
        · rw [hsub]
          refine .fault (Option.some_ne_none number) fun hgood => ?_
          have := hharm.mp hgood
          omega
      · simp only [hnamed, if_false, false_implies, and_true] at hharm ⊢
        refine .skip _ hinside (hharm.trans ?_)
        simp only [sizeT]
        omega

end Visits

theorem ssrc_progresses_iff (hd : d.length < 2 ^ 63) (target : Nat) :
    Progresses (ssrcStep d target) (· < ·) 0 ↔
      ∀ pos, Reaches (ssrcStep d target) 0 pos → Harmless d (some target) pos := by
  apply progresses_iff (fun _ => True) (fun pos => d.length - pos) trivial
  · intro pos _
    have hfinds := visit_finds hd (some target) pos
    unfold ssrcStep
    generalize visit d (some target) pos = found at hfinds
    cases hfinds with
    | stop hgood => simp [hgood]
    | skip field hinside hgood => simp [hgood]
    | enter field inner hinside hshort hnamed hgood hadvance =>
      dsimp only
      cases innerSsrc inner <;> simp [hgood, hadvance]
    | fault _ hbad => simp [hbad]
  · simp
  · intro pos pos' _ hgood hnext
    have hfinds := visit_finds hd (some target) pos
    unfold ssrcStep at hnext
    generalize visit d (some target) pos = found at hfinds hnext
    cases hfinds with
    | stop => cases hnext
    | skip field hinside hiff =>
      cases hnext
      have := hiff.mp hgood
      omega
    | enter field inner hinside hshort hnamed _ hadvance =>
      dsimp only at hnext
      split at hnext
      · cases hnext
      · cases hnext
        omega
    | fault => cases hnext

def CanvasState.Inside (d : Bytes) : CanvasState → Prop
  | .fields _ _ => True
  | .message pos next sub _ _ => pos < d.length ∧ pos < next ∧ sub.length ≤ d.length

/-- The outer position counts more than the whole nested loop. -/
def CanvasState.remaining (d : Bytes) : CanvasState → Nat
  | .fields pos _ => (d.length - pos) * (d.length + 2) + (d.length + 1)
  | .message pos _ sub sp _ => (d.length - pos) * (d.length + 2) + (sub.length - sp)

section Canvas

variable {d : Bytes} {state state' : CanvasState}

theorem canvasStep_local (hd : d.length < 2 ^ 63) (hinside : state.Inside d) :
    state.Harmless d ↔ canvasStep d state ≠ .fault ∧
      ∀ state', canvasStep d state = .next state' → Advances state state' := by
  cases state with
  | fields pos dims =>
    have hfinds := visit_finds hd (some 5) pos
    simp only [CanvasState.Harmless, canvasStep]
    generalize visit d (some 5) pos = found at hfinds
    cases hfinds with
    | stop hgood => simp [hgood]
    | skip field _ hgood => simp [hgood, Advances]
    | enter field sub _ _ _ hgood _ => simp [hgood, Advances]
    | fault _ hbad => simp [hbad]
  | message pos next sub sp dims =>
    obtain ⟨-, hnext, hshort⟩ := hinside
    have hfinds := visit_finds (Nat.lt_of_le_of_lt hshort hd) none sp
    simp only [CanvasState.Harmless, canvasStep]
    generalize visit sub none sp = found at hfinds
    cases hfinds with
    | stop hgood => simp [hgood, Advances, hnext]
    | skip field _ hgood => simp [hgood, Advances]
    | enter field _ _ _ hnamed => cases hnamed
    | fault hasked => exact absurd rfl hasked

theorem canvasStep_next (hd : d.length < 2 ^ 63) (hinside : state.Inside d)
    (hgood : state.Harmless d) (hnext : canvasStep d state = .next state') :
    state'.Inside d ∧ state'.remaining d < state.remaining d := by
  cases state with
  | fields pos dims =>
    have hfinds := visit_finds hd (some 5) pos
    simp only [CanvasState.Harmless, canvasStep] at hgood hnext
    generalize visit d (some 5) pos = found at hfinds hnext
    cases hfinds with
    | stop => cases hnext
    | skip field hpos hiff =>
      cases hnext
      have hadvance := hiff.mp hgood
      refine ⟨trivial, ?_⟩
      simp only [CanvasState.remaining]
      have : (d.length - field.next) * (d.length + 2) < (d.length - pos) * (d.length + 2) :=
        Nat.mul_lt_mul_of_pos_right (by omega) (by omega)
      omega
    | enter field sub hpos hshort _ _ hadvance =>
      cases hnext
      refine ⟨⟨hpos, hadvance, hshort⟩, ?_⟩
      simp only [CanvasState.remaining]
      omega
    | fault => cases hnext
  | message pos next sub sp dims =>
    obtain ⟨hpos, hafter, hshort⟩ := hinside
    have hleave : (CanvasState.fields next dims).remaining d <
        (CanvasState.message pos next sub sp dims).remaining d := by
      simp only [CanvasState.remaining]
      have : (d.length - next + 1) * (d.length + 2) ≤ (d.length - pos) * (d.length + 2) :=
        Nat.mul_le_mul_right _ (by omega)
      rw [Nat.add_mul] at this
      omega
    have hfinds := visit_finds (Nat.lt_of_le_of_lt hshort hd) none sp
    simp only [CanvasState.Harmless, canvasStep] at hgood hnext
    generalize visit sub none sp = found at hfinds hnext
    cases hfinds with
    | stop => cases hnext; exact ⟨trivial, hleave⟩
    | skip field hsp hiff =>
      cases hnext
      have hadvance := hiff.mp hgood
      refine ⟨⟨hpos, hafter, hshort⟩, ?_⟩
      simp only [CanvasState.remaining]
      omega
    | enter => cases hnext; exact ⟨trivial, hleave⟩
    | fault => cases hnext; exact ⟨trivial, hleave⟩

theorem canvas_progresses_iff (hd : d.length < 2 ^ 63) (dims : CanvasDims) :
    Progresses (canvasStep d) Advances (.fields 0 dims) ↔
      ∀ state, Reaches (canvasStep d) (.fields 0 dims) state → state.Harmless d := by
  apply progresses_iff (CanvasState.Inside d) (CanvasState.remaining d)
  · exact trivial
  · exact fun state => canvasStep_local hd
  · exact fun state state' hinside hgood hnext => (canvasStep_next hd hinside hgood hnext).1
  · exact fun state state' hinside hgood hnext => (canvasStep_next hd hinside hgood hnext).2

end Canvas

/-- The walks advance on every iteration, stay inside the blob and end, for both
offers and for the answer with its nested messages, exactly when every field
they come to is harmless. -/
theorem walks_progress_iff (d : Bytes) (hd : d.length < 2 ^ 63) :
    (∀ isVideo, Progresses (ssrcStep d (ssrcField isVideo)) (· < ·) 0 ↔
      ∀ pos, Reaches (ssrcStep d (ssrcField isVideo)) 0 pos →
        Harmless d (some (ssrcField isVideo)) pos) ∧
    (∀ dims, Progresses (canvasStep d) Advances (.fields 0 dims) ↔
      ∀ state, Reaches (canvasStep d) (.fields 0 dims) state → state.Harmless d) :=
  ⟨fun isVideo => ssrc_progresses_iff hd (ssrcField isVideo), canvas_progresses_iff hd⟩

/-- A video blob that holds only the message with the ssrc 7. -/
theorem walks_progress_ssrcSeven :
    ssrcStep [0x2A, 0x02, 0x08, 0x07] 5 0 = .done (some 7) ∧
      Progresses (ssrcStep [0x2A, 0x02, 0x08, 0x07] 5) (· < ·) 0 := by
  refine ⟨by decide, ((walks_progress_iff [0x2A, 0x02, 0x08, 0x07] (by decide)).1 true).mpr ?_⟩
  intro pos hreach
  have hdone : ssrcStep [0x2A, 0x02, 0x08, 0x07] (ssrcField true) 0 = .done (some 7) := by decide
  have hpos : pos = 0 := by
    apply hreach.invariant (P := fun pos => pos = 0) rfl
    rintro pos pos' - rfl hnext
    rw [hdone] at hnext
    cases hnext
  rw [hpos]
  -- the field's two bytes start at position 2
  exact .inl (by decide : 2 + 2 < 2 ^ 64)

def loopBlob : Bytes := [0x0A, 0xF5, 0xFF, 0xFF, 0xFF, 0xFF, 0xFF, 0xFF, 0xFF, 0xFF, 0x01]

/-- It ends where it starts, so all walks read it forever. -/
theorem loopBlob_walks_forever :
    (∀ isVideo, ¬ Ends (ssrcStep loopBlob (ssrcField isVideo)) 0) ∧
      ∀ dims, ¬ Ends (canvasStep loopBlob) (.fields 0 dims) := by
  constructor
  · intro isVideo
    apply not_ends_of_self
    cases isVideo <;> decide
  · intro dims
    apply not_ends_of_self
    rfl

end Scshr.Protocol.Offers
