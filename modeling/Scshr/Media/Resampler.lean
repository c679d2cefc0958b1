import Mathlib.Algebra.Order.Floor.Ring
import Mathlib.Data.List.GetD
import Mathlib.Data.Rat.Floor
import Mathlib.Tactic.Linarith
import Mathlib.Tactic.FieldSimp

/-! The resampler of the session's audio (`StereoResampler` of `media/session_audio.cpp`) over
exact rational numbers. -/
namespace Scshr.Media

open List

abbrev StereoFrame := ℚ × ℚ

structure StereoResampler where
  rate : Nat := 0
  pos : ℚ := 0
  last : StereoFrame := (0, 0)
  haveLast : Bool := false

namespace StereoResampler

def interpolate (src : List StereoFrame) (t : ℚ) : StereoFrame :=
  let i := ⌊t⌋.toNat
  let f := t - i
  let a := src.getD i (0, 0)
  let b := src.getD (i + 1) (0, 0)
  (a.1 * (1 - f) + b.1 * f, a.2 * (1 - f) + b.2 * f)

/-- The loop over the output, from a time on; the time where it stops. -/
def resample (src : List StereoFrame) (step : { q : ℚ // 0 < q }) (t : ℚ) :
    List StereoFrame × ℚ :=
  if t + 1 < src.length then
    let rest := resample src step (t + step)
    (interpolate src t :: rest.1, rest.2)
  else ([], t)
termination_by ⌈(src.length - 1 - t) / step.val⌉.toNat
decreasing_by
  have positive := step.property
  have apart : (src.length - 1 - (t + step.val)) / step.val =
      (src.length - 1 - t) / step.val - 1 := by
    field_simp
    ring
  have left : 0 < (src.length - 1 - t) / step.val := div_pos (by linarith) positive
  have ceil := Int.ceil_pos.mpr left
  rw [apart, Int.ceil_sub_one]
  omega

def tune (r : StereoResampler) (rate : Nat) : StereoResampler :=
  if rate ≠ r.rate then { r with rate := rate, pos := 0, haveLast := false } else r

def source (r : StereoResampler) (frames : List StereoFrame) : List StereoFrame :=
  (if r.haveLast then [r.last] else []) ++ frames

def keep (r : StereoResampler) (pos : ℚ) (last : StereoFrame) : StereoResampler :=
  { r with pos := pos, last := last, haveLast := true }

def step (rate : Nat) (moving : rate ≠ 0) : { q : ℚ // 0 < q } :=
  ⟨rate / 48000, div_pos (Nat.cast_pos.mpr (Nat.pos_of_ne_zero moving)) (by norm_num)⟩

def to48k (r : StereoResampler) (frames : List StereoFrame) (rate : Nat) :
    List StereoFrame × StereoResampler :=
  if idle : frames = [] ∨ rate = 0 then ([], r)
  else if rate = 48000 then (frames, r)
  else
    let r := r.tune rate
    let src := r.source frames
    let (out, t) := resample src (step rate (not_or.mp idle).2) r.pos
    (out, r.keep (t - (src.length - 1)) (src.getLastD (0, 0)))

def run (calls : List (List StereoFrame × Nat)) : StereoResampler :=
  calls.foldl (fun r call => (r.to48k call.1 call.2).2) {}

section

variable (front back src : List StereoFrame) (last : StereoFrame) (step : { q : ℚ // 0 < q })
  {t : ℚ}

theorem resample_more (more : t + 1 < src.length) : resample src step t =
    (interpolate src t :: (resample src step (t + step)).1, (resample src step (t + step)).2) := by
  rw [resample, if_pos more]

theorem resample_done (done : ¬ t + 1 < src.length) : resample src step t = ([], t) := by
  rw [resample, if_neg done]

/-- The loop stops at the last frame or behind it. -/
theorem length_le_resample (t : ℚ) : (src.length : ℚ) ≤ (resample src step t).2 + 1 := by
  induction t using resample.induct src step with
  | case1 t more ih =>
    rw [resample_more _ _ more]
    exact ih
  | case2 t done =>
    rw [resample_done _ _ done]
    exact not_lt.mp done

/-- Frames that lie behind do not matter. -/
theorem resample_drop (start : 0 ≤ t) : resample (front ++ src) step (t + front.length) =
    ((resample src step t).1, (resample src step t).2 + front.length) := by
  induction t using resample.induct src step with
  | case1 t more ih =>
    have later : t + front.length + 1 < ((front ++ src).length : ℚ) := by
      rw [length_append, Nat.cast_add]
      linarith
    have floor : ⌊t + front.length⌋.toNat = front.length + ⌊t⌋.toNat := by
      have positive := Int.floor_nonneg.mpr start
      rw [Int.floor_add_natCast]
      omega
    have same : interpolate (front ++ src) (t + front.length) = interpolate src t := by
      have time : t + front.length - (front.length + ⌊t⌋.toNat : Nat) = t - ⌊t⌋.toNat := by
        push_cast
        ring
      simp only [interpolate, floor, time, Nat.add_assoc,
        getD_append_right _ _ _ _ (Nat.le_add_right _ _), Nat.add_sub_cancel_left]
    have next := ih (by linarith [step.property])
    rw [resample_more _ _ later, resample_more _ _ more, same, add_right_comm, next]
  | case2 t done =>
    rw [resample_done _ _ done, resample_done]
    rw [length_append, Nat.cast_add]
    linarith

/-- The output up to the last frame of the first part, and then from that frame on. -/
theorem resample_append (start : 0 ≤ t) :
    let first := resample (front ++ [last]) step t
    let second := resample (last :: back) step (first.2 - front.length)
    resample (front ++ [last] ++ back) step t =
      (first.1 ++ second.1, second.2 + front.length) := by
  dsimp only
  induction t using resample.induct (front ++ [last]) step with
  | case1 t more ih =>
    have floor : ⌊t⌋.toNat + 1 < (front ++ [last]).length := by
      have below : ⌊t⌋ < ((front ++ [last]).length : ℤ) - 1 := by
        rw [Int.floor_lt, Int.cast_sub, Int.cast_natCast, Int.cast_one]
        exact lt_sub_iff_add_lt.mpr more
      have positive := Int.floor_nonneg.mpr start
      omega
    have later : t + 1 < ((front ++ [last] ++ back).length : ℚ) :=
      more.trans_le (Nat.cast_le.mpr (prefix_append _ back).length_le)
    have same : interpolate (front ++ [last] ++ back) t = interpolate (front ++ [last]) t := by
      simp only [interpolate, getD_append _ _ _ _ floor,
        getD_append _ _ _ _ (Nat.lt_of_succ_lt floor)]
    rw [resample_more _ _ later, resample_more _ _ more, same, ih (by linarith [step.property])]
    rfl
  | case2 t done =>
    have behind : 0 ≤ t - front.length := by
      rw [length_append, Nat.cast_add, length_singleton, Nat.cast_one] at done
      linarith
    have dropped := resample_drop front (last :: back) step behind
    rw [sub_add_cancel] at dropped
    rw [resample_done _ _ done, append_assoc, singleton_append, dropped, nil_append]

end

theorem tune_nonneg {r : StereoResampler} (phase : 0 ≤ r.pos) (rate : Nat) :
    0 ≤ (r.tune rate).pos := by
  rw [tune]
  split
  · exact le_rfl
  · exact phase

/-- The phase is never before the last frame. -/
theorem to48k_nonneg {r : StereoResampler} (phase : 0 ≤ r.pos) (frames : List StereoFrame)
    (rate : Nat) : 0 ≤ (r.to48k frames rate).2.pos := by
  rw [to48k]
  split
  · exact phase
  · split
    · exact phase
    · exact sub_nonneg.mpr (sub_le_iff_le_add.mpr (length_le_resample _ _ _))

theorem run_nonneg (calls : List (List StereoFrame × Nat)) : 0 ≤ (run calls).pos :=
  List.foldlRecOn (motive := fun r : StereoResampler => 0 ≤ r.pos) calls _ le_rfl
    fun _ phase call _ => to48k_nonneg phase call.1 call.2

theorem tune_keep (r : StereoResampler) (rate : Nat) (pos : ℚ) (last : StereoFrame) :
    ((r.tune rate).keep pos last).tune rate = (r.tune rate).keep pos last := by
  have same : (r.tune rate).rate = rate := by
    rw [tune]
    split
    · rfl
    · next same => exact (not_not.mp same).symm
  exact if_neg (not_not.mpr same.symm)

/-- What a packet gives whose frames end in `last`. -/
theorem to48k_eq {r : StereoResampler} {frames front : List StereoFrame} {last : StereoFrame}
    {rate : Nat} (more : frames ≠ []) (moving : rate ≠ 0) (other : rate ≠ 48000)
    (cut : (r.tune rate).source frames = front ++ [last]) :
    let played := resample (front ++ [last]) (step rate moving) (r.tune rate).pos
    r.to48k frames rate = (played.1, (r.tune rate).keep (played.2 - front.length) last) := by
  simp [to48k, more, moving, other, cut]

/-- Where the frames of a history are cut into packets does not matter. -/
theorem to48k_append (calls : List (List StereoFrame × Nat)) (rate : Nat)
    (a b : List StereoFrame) :
    let first := (run calls).to48k a rate
    let second := first.2.to48k b rate
    (run calls).to48k (a ++ b) rate = (first.1 ++ second.1, second.2) := by
  obtain rfl | moreA := eq_or_ne a []
  · simp [to48k]
  obtain rfl | moreB := eq_or_ne b []
  · simp [to48k]
  obtain rfl | moving := eq_or_ne rate 0
  · simp [to48k]
  obtain rfl | other := eq_or_ne rate 48000
  · simp [to48k, moreA, moreB]
  have phase := tune_nonneg (run_nonneg calls) rate
  obtain none | ⟨front, last, cut⟩ := eq_nil_or_concat' (((run calls).tune rate).source a)
  · exact absurd (append_eq_nil_iff.mp none).2 moreA
  obtain none | ⟨front', last', cut'⟩ := eq_nil_or_concat' (last :: b)
  · exact absurd none (cons_ne_nil _ _)
  have joined : ((run calls).tune rate).source (a ++ b) = front ++ front' ++ [last'] := by
    rw [append_assoc, ← cut', append_cons, ← cut, source, source, append_assoc]
  have moreAB : a ++ b ≠ [] := fun none => moreA (append_eq_nil_iff.mp none).1
  have next (pos : ℚ) : ((((run calls).tune rate).keep pos last).tune rate).source b =
      front' ++ [last'] := (congrArg (source · b) (tune_keep _ _ _ _)).trans cut'
  have both := resample_append front b last (step rate moving) phase
  rw [← append_cons, cut', ← append_assoc] at both
  dsimp only
  rw [to48k_eq moreA moving other cut, to48k_eq moreB moving other (next _), tune_keep,
    to48k_eq moreAB moving other joined, both, length_append, Nat.cast_add,
    add_comm (front.length : ℚ), add_sub_add_right_eq_sub]
  rfl

end StereoResampler

end Scshr.Media
