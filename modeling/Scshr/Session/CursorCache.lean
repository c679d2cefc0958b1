import Mathlib.Data.List.Induction
import Scshr.Common.Bytes
import Scshr.Lib.AssocMap

/-! The cursor cache (`Session::handle_cursor_rect`).  A shape is stored under the id the
host gives it, and the id is put behind the eviction order, whether it stands there
already or not. -/
namespace Scshr.Session

open Common Lib List

structure CursorShape where
  w : Nat
  h : Nat
  hx : Nat
  hy : Nat
  rgba : Bytes
  deriving DecidableEq

/-- The arguments of `handle_cursor_rect`; position and size come from 16-bit fields. -/
structure CursorRect where
  msg : Bytes
  off : Nat
  hx : UInt16
  hy : UInt16
  w : UInt16
  h : UInt16
  deriving DecidableEq

def cursorPixel (raw : Bytes) (pix p : Nat) : Bytes :=
  let o := p * 4
  [raw.getD (o + 2) 0, raw.getD (o + 1) 0, raw.getD o 0, raw.getD (pix + p) 0]

/-- What a rectangle comes to: too short, a reference to a stored shape, an unreadable
shape, or a shape; the last two with the bytes it takes. -/
inductive CursorContent where
  | truncated
  | stored (id : UInt32)
  | unreadable (consumed : Nat)
  | shape (id : UInt32) (img : CursorShape) (consumed : Nat)
  deriving DecidableEq

structure Cursors where
  cache : AssocMap UInt32 CursorShape
  order : List UInt32
  last : Option CursorShape
  messages : Nat
  deriving DecidableEq

def Cursors.empty : Cursors := ⟨∅, [], none, 0⟩

def notifyCursor (cursors : Cursors) (img : Option CursorShape) : Cursors :=
  { cursors with last := img.or cursors.last, messages := cursors.messages + 1 }

/-- The assignment, the `push_back` and the eviction. -/
def storeCursor (cursors : Cursors) (id : UInt32) (img : CursorShape) : Cursors :=
  let cache := cursors.cache.insert id img
  let order := cursors.order ++ [id]
  if 64 < cache.keys.length then
    { cursors with cache := cache.erase (order.headD id), order := order.tail }
  else { cursors with cache := cache, order := order }

section

variable (inflate : Bytes → Option Bytes)

def readCursorRect (rect : CursorRect) : CursorContent :=
  if rect.msg.length < rect.off + 8 then .truncated
  else
    let id := be32At rect.msg rect.off
    let comp := (be32At rect.msg (rect.off + 4)).toNat
    let poff := rect.off + 8
    if rect.msg.length < poff + comp then .truncated
    else if comp = 0 then .stored id
    else
      match inflate ((rect.msg.drop poff).take comp) with
      | none => .unreadable (8 + comp)
      | some raw =>
          let mask := rect.w.toNat * rect.h.toNat
          let pix := mask * 4
          if raw.length ≠ pix + mask then .unreadable (8 + comp)
          else
            let rgba := (List.range mask).flatMap (cursorPixel raw pix)
            .shape id ⟨rect.w.toNat, rect.h.toNat, rect.hx.toNat, rect.hy.toNat, rgba⟩ (8 + comp)

/-- The bytes consumed, -1 for a rectangle that is too short, and the new state. -/
def handleCursorRect (cursors : Cursors) (rect : CursorRect) : Int × Cursors :=
  match readCursorRect inflate rect with
  | .truncated => (-1, cursors)
  | .stored id => (8, notifyCursor cursors (cursors.cache.lookup id))
  | .unreadable consumed => (consumed, cursors)
  | .shape id img consumed => (consumed, notifyCursor (storeCursor cursors id img) (some img))

def handleCursorRects (rects : List CursorRect) : Cursors :=
  rects.foldl (fun cursors rect => (handleCursorRect inflate cursors rect).2) Cursors.empty

def storedShape (rect : CursorRect) : Option (UInt32 × CursorShape) :=
  match readCursorRect inflate rect with
  | .shape id img _ => some (id, img)
  | _ => none

def storedIds (rects : List CursorRect) : List UInt32 :=
  rects.filterMap fun rect => (storedShape inflate rect).map Prod.fst

end

/-- What a store must leave: a bounded cache, an order that lists its keys once each, and
the shape. -/
structure Stored (cursors : Cursors) (id : UInt32) (img : CursorShape) : Prop where
  bounded : cursors.cache.keys.length ≤ 64
  nodup : cursors.order.Nodup
  listed : ∀ key, key ∈ cursors.order ↔ key ∈ cursors.cache
  present : cursors.cache.lookup id = some img

/-! ## Stores -/

section

variable {cursors : Cursors} {id : UInt32} {img : CursorShape}

/-- The order holds the last 64 ids and the cache these keys. -/
structure Tracked (ids : List UInt32) (cursors : Cursors) : Prop where
  order : cursors.order = ids.drop (ids.length - 64)
  keys : cursors.cache.keys.Perm cursors.order

variable {ids : List UInt32}

theorem Tracked.length_order (h : Tracked ids cursors) :
    cursors.order.length = min ids.length 64 := by
  rw [h.order, length_drop]
  omega

theorem Tracked.nodup (h : Tracked ids cursors) : cursors.order.Nodup :=
  h.keys.nodup_iff.mp cursors.cache.keys_nodup

theorem Tracked.length_keys (h : Tracked ids cursors) :
    cursors.cache.keys.length = min ids.length 64 := by
  rw [h.keys.length_eq, h.length_order]

theorem Tracked.perm_insert (h : Tracked ids cursors) (hnew : id ∉ cursors.order)
    (img : CursorShape) : (cursors.cache.insert id img).keys.Perm (cursors.order ++ [id]) := by
  have hfresh : id ∉ cursors.cache.keys := fun hmem => hnew (h.keys.mem_iff.mp hmem)
  rw [AList.keys_insert, erase_of_not_mem hfresh]
  exact (h.keys.cons id).trans (perm_append_singleton id cursors.order).symm

theorem Tracked.store (h : Tracked ids cursors) (hnew : id ∉ cursors.order) (img : CursorShape) :
    Tracked (ids ++ [id]) (storeCursor cursors id img) ∧
      (storeCursor cursors id img).cache.lookup id = some img := by
  have hperm := h.perm_insert hnew img
  have hlast : cursors.order ++ [id] = (ids ++ [id]).drop (ids.length - 64) := by
    rw [h.order, drop_append_of_le_length (Nat.sub_le _ _)]
  have hsize : (cursors.cache.insert id img).keys.length = min ids.length 64 + 1 := by
    rw [hperm.length_eq, length_append, h.length_order, length_singleton]
  unfold storeCursor
  dsimp only
  split
  · next hfull =>
    -- the oldest id goes; it is not the new one
    cases horder : cursors.order with
    | nil =>
      rw [hsize, ← h.length_order, horder] at hfull
      exact absurd hfull (by simp)
    | cons oldest rest =>
      rw [horder] at hperm hnew
      have hother : id ≠ oldest := fun heq => hnew (heq ▸ mem_cons_self)
      refine ⟨⟨?_, ?_⟩, ?_⟩
      · have hnext : (ids ++ [id]).length - 64 = ids.length - 64 + 1 := by
          rw [length_append, length_singleton]
          omega
        rw [← horder, hlast, tail_drop, hnext]
      · rw [AList.keys_erase]
        have herased := hperm.erase oldest
        rwa [cons_append, erase_cons_head] at herased
      · exact (AList.lookup_erase_ne hother).trans (AList.lookup_insert _)
  · next hroom =>
    have hnext : (ids ++ [id]).length - 64 = ids.length - 64 := by
      rw [length_append, length_singleton]
      omega
    refine ⟨⟨?_, hperm⟩, AList.lookup_insert _⟩
    rw [hlast, hnext]

theorem Tracked.store_again (h : Tracked ids cursors) (hold : id ∈ cursors.order)
    (img : CursorShape) : ¬ (storeCursor cursors id img).order.Nodup := by
  have hmem := h.keys.mem_iff.mpr hold
  have hsize : ¬ 64 < (cursors.cache.insert id img).keys.length := by
    have hlength := h.length_keys
    have hpos := length_pos_of_mem hmem
    rw [AList.keys_insert, length_cons, length_erase_of_mem hmem]
    omega
  unfold storeCursor
  rw [if_neg hsize, nodup_append_comm]
  exact fun hnodup => (nodup_cons.mp hnodup).1 hold

theorem Tracked.kept (h : Tracked ids cursors) (hpresent : cursors.cache.lookup id = some img) :
    Stored cursors id img where
  bounded := by
    rw [h.length_keys]
    exact Nat.min_le_right _ _
  nodup := h.nodup
  listed := fun key => (h.keys.mem_iff.symm).trans AList.mem_keys.symm
  present := hpresent

end

/-! ## Sequences of rectangles -/

/-- Between two stores of one id there are at least 64 others. -/
def Spaced (ids : List UInt32) : Prop :=
  ∀ i j id, i < j → ids[i]? = some id → ids[j]? = some id → 64 < j - i

theorem spaced_append {ids : List UInt32} {id : UInt32} :
    Spaced (ids ++ [id]) ↔ Spaced ids ∧ id ∉ ids.drop (ids.length - 64) := by
  constructor
  · intro h
    refine ⟨?_, ?_⟩
    · intro i j key hlt hi hj
      obtain ⟨hilt, -⟩ := List.getElem?_eq_some_iff.mp hi
      obtain ⟨hjlt, -⟩ := List.getElem?_eq_some_iff.mp hj
      apply h i j key hlt
      · rwa [List.getElem?_append_left hilt]
      · rwa [List.getElem?_append_left hjlt]
    · intro hmem
      obtain ⟨k, hk⟩ := mem_iff_getElem?.mp hmem
      rw [List.getElem?_drop] at hk
      obtain ⟨hlt, -⟩ := List.getElem?_eq_some_iff.mp hk
      have hgap := h (ids.length - 64 + k) ids.length id hlt
        (by rwa [List.getElem?_append_left hlt]) List.getElem?_concat_length
      omega
  · rintro ⟨h, hnew⟩ i j key hlt hi hj
    obtain ⟨hjlt, -⟩ := List.getElem?_eq_some_iff.mp hj
    rw [length_append, length_singleton] at hjlt
    rw [List.getElem?_append_left (by omega)] at hi
    by_cases hlast : j = ids.length
    · subst hlast
      rw [List.getElem?_concat_length, Option.some_inj] at hj
      subst hj
      by_contra hgap
      apply hnew
      rw [mem_iff_getElem?]
      refine ⟨i - (ids.length - 64), ?_⟩
      rwa [List.getElem?_drop, Nat.add_sub_cancel' (by omega)]
    · rw [List.getElem?_append_left (by omega)] at hj
      exact h i j key hlt hi hj

section

variable (inflate : Bytes → Option Bytes)

def AllKept (rects : List CursorRect) : Prop :=
  ∀ front rect back id img, rects = front ++ rect :: back →
    storedShape inflate rect = some (id, img) →
      Stored (handleCursorRects inflate (front ++ [rect])) id img

variable {inflate} {rects : List CursorRect} {rect : CursorRect}

theorem allKept_append :
    AllKept inflate (rects ++ [rect]) ↔ AllKept inflate rects ∧
      ∀ id img, storedShape inflate rect = some (id, img) →
        Stored (handleCursorRects inflate (rects ++ [rect])) id img := by
  constructor
  · intro h
    refine ⟨?_, fun id img => h rects rect [] id img rfl⟩
    rintro front middle back id img rfl
    exact h front middle (back ++ [rect]) id img (by simp)
  · rintro ⟨h, hlast⟩ front middle back id img hsplit
    rcases eq_nil_or_concat back with rfl | ⟨back, other, rfl⟩
    · obtain ⟨rfl, hrect⟩ := append_inj' hsplit rfl
      obtain rfl : rect = middle := by simpa using hrect
      exact hlast id img
    · rw [concat_eq_append, ← cons_append, ← append_assoc] at hsplit
      exact h front middle back id img (append_inj_left' hsplit rfl)

theorem handleCursorRects_append :
    handleCursorRects inflate (rects ++ [rect]) =
      (handleCursorRect inflate (handleCursorRects inflate rects) rect).2 := by
  rw [handleCursorRects, foldl_append]
  rfl

theorem handleCursorRect_cases (cursors : Cursors) :
    (storedShape inflate rect = none ∧
      (handleCursorRect inflate cursors rect).2.cache = cursors.cache ∧
      (handleCursorRect inflate cursors rect).2.order = cursors.order) ∨
    ∃ id img, storedShape inflate rect = some (id, img) ∧
      (handleCursorRect inflate cursors rect).2.cache = (storeCursor cursors id img).cache ∧
      (handleCursorRect inflate cursors rect).2.order = (storeCursor cursors id img).order := by
  unfold storedShape handleCursorRect
  cases readCursorRect inflate rect with
  | truncated => exact .inl ⟨rfl, rfl, rfl⟩
  | stored id => exact .inl ⟨rfl, rfl, rfl⟩
  | unreadable consumed => exact .inl ⟨rfl, rfl, rfl⟩
  | shape id img consumed => exact .inr ⟨id, img, rfl, rfl, rfl⟩

theorem storedIds_append :
    storedIds inflate (rects ++ [rect]) =
      storedIds inflate rects ++ ((storedShape inflate rect).map Prod.fst).toList := by
  unfold storedIds
  rw [filterMap_append]
  cases hstored : storedShape inflate rect with
  | none => simp [hstored]
  | some stored => simp [hstored]

variable {ids : List UInt32} (h : Tracked ids (handleCursorRects inflate rects))

include h

theorem Tracked.skip (hnone : storedShape inflate rect = none) :
    Tracked ids (handleCursorRects inflate (rects ++ [rect])) := by
  rw [handleCursorRects_append]
  rcases handleCursorRect_cases (handleCursorRects inflate rects) with
    ⟨-, hcache, horder⟩ | ⟨id, img, hsome, -⟩
  · exact ⟨horder.trans h.order, by rw [hcache, horder]; exact h.keys⟩
  · rw [hnone] at hsome
    cases hsome

theorem Tracked.stored {id : UInt32} (hsome : storedShape inflate rect = some (id, img)) :
    (id ∉ ids.drop (ids.length - 64) →
      Tracked (ids ++ [id]) (handleCursorRects inflate (rects ++ [rect])) ∧
        Stored (handleCursorRects inflate (rects ++ [rect])) id img) ∧
    (id ∈ ids.drop (ids.length - 64) →
      ¬ Stored (handleCursorRects inflate (rects ++ [rect])) id img) := by
  rw [handleCursorRects_append]
  rcases handleCursorRect_cases (handleCursorRects inflate rects) with
    ⟨hnone, -⟩ | ⟨other, shape, hother, hcache, horder⟩
  · rw [hsome] at hnone
    cases hnone
  · rw [hsome] at hother
    cases hother
    rw [← h.order]
    refine ⟨?_, ?_⟩
    · intro hnew
      obtain ⟨hstore, hpresent⟩ := h.store hnew img
      have htracked : Tracked (ids ++ [id])
          (handleCursorRect inflate (handleCursorRects inflate rects) rect).2 :=
        ⟨horder.trans hstore.order, by rw [hcache, horder]; exact hstore.keys⟩
      exact ⟨htracked, htracked.kept (hcache ▸ hpresent)⟩
    · intro hold hkept
      exact h.store_again hold img (horder ▸ hkept.nodup)

end

/-- The cache stays bounded, its order lists its keys once each and every stored shape is
present exactly if no id is stored again while it is one of the last 64. -/
theorem cursor_cache_kept_iff (inflate : Bytes → Option Bytes) (rects : List CursorRect) :
    AllKept inflate rects ↔ Spaced (storedIds inflate rects) := by
  -- with the ids far apart the state is known as well
  suffices hboth : (AllKept inflate rects ↔ Spaced (storedIds inflate rects)) ∧
      (Spaced (storedIds inflate rects) →
        Tracked (storedIds inflate rects) (handleCursorRects inflate rects)) from hboth.1
  induction rects using List.reverseRecOn with
  | nil =>
    refine ⟨⟨?_, ?_⟩, fun _ => ⟨rfl, .refl _⟩⟩
    · rintro - i j id - hi
      cases hi
    · rintro - front rect back id img hnil
      exact absurd hnil (by simp)
  | append_singleton rects rect ih =>
    obtain ⟨hiff, htracked⟩ := ih
    rw [allKept_append, hiff, storedIds_append]
    cases hstored : storedShape inflate rect with
    | none =>
      rw [Option.map_none, Option.toList_none, append_nil]
      refine ⟨⟨And.left, fun h => ⟨h, ?_⟩⟩, fun h => (htracked h).skip hstored⟩
      rintro id img ⟨⟩
    | some stored =>
      obtain ⟨id, img⟩ := stored
      rw [Option.map_some, Option.toList_some, spaced_append]
      refine ⟨⟨?_, ?_⟩, ?_⟩
      · rintro ⟨hspaced, hkept⟩
        refine ⟨hspaced, fun hold => ?_⟩
        exact ((htracked hspaced).stored hstored).2 hold (hkept id img rfl)
      · rintro ⟨hspaced, hnew⟩
        refine ⟨hspaced, ?_⟩
        rintro other shape ⟨⟩
        exact (((htracked hspaced).stored hstored).1 hnew).2
      · rintro ⟨hspaced, hnew⟩
        exact (((htracked hspaced).stored hstored).1 hnew).1

def pixelRect (id : UInt32) : CursorRect :=
  ⟨putBe32 id ++ putBe32 5 ++ [1, 2, 3, 0, 255], 0, 0, 0, 1, 1⟩

/-- The host sends the shape with id 7 twice. -/
theorem resent_cursor_listed_twice :
    storedIds some [pixelRect 7, pixelRect 7] = [7, 7] ∧
      (handleCursorRects some [pixelRect 7, pixelRect 7]).order = [7, 7] ∧
      ¬ AllKept some [pixelRect 7, pixelRect 7] := by
  have horder : (handleCursorRects some [pixelRect 7, pixelRect 7]).order = [7, 7] := by
    decide +kernel
  refine ⟨by decide +kernel, horder, ?_⟩
  intro hkept
  have hstored : storedShape some (pixelRect 7) = some (7, ⟨1, 1, 0, 0, [3, 2, 1, 255]⟩) := by
    decide +kernel
  have hnodup := (hkept [pixelRect 7] (pixelRect 7) [] _ _ rfl hstored).nodup
  rw [singleton_append, horder] at hnodup
  exact absurd hnodup (by decide)

end Scshr.Session
