import Mathlib.Data.List.Basic
import Mathlib.Tactic.Ring

/-! Cipher block chaining over an arbitrary block type, then over byte strings
cut into blocks of one width.  Both directions return the chaining block for
the next call, so that a stream can be processed piece by piece. -/
namespace Scshr.Lib

structure BlockCipher (β : Type) where
  enc : β → β
  dec : β → β
  mask : β → β → β
  dec_enc : ∀ block, dec (enc block) = block
  mask_mask : ∀ block chain, mask (mask block chain) chain = block

namespace Cbc

section Blocks

variable {β : Type} (cipher : BlockCipher β)

def encrypt (chain : β) : List β → List β × β
  | [] => ([], chain)
  | block :: rest =>
      let coded := cipher.enc (cipher.mask block chain)
      let tail := encrypt coded rest
      (coded :: tail.1, tail.2)

def decrypt (chain : β) : List β → List β × β
  | [] => ([], chain)
  | coded :: rest =>
      let tail := decrypt coded rest
      (cipher.mask (cipher.dec coded) chain :: tail.1, tail.2)

variable (chain : β)

variable (blocks : List β)

@[simp] theorem length_encrypt : (encrypt cipher chain blocks).1.length = blocks.length := by
  induction blocks generalizing chain with
  | nil => rfl
  | cons block rest ih => simp [encrypt, ih]

@[simp] theorem length_decrypt : (decrypt cipher chain blocks).1.length = blocks.length := by
  induction blocks generalizing chain with
  | nil => rfl
  | cons coded rest ih => simp [decrypt, ih]

theorem decrypt_encrypt :
    decrypt cipher chain (encrypt cipher chain blocks).1 =
      (blocks, (encrypt cipher chain blocks).2) := by
  induction blocks generalizing chain with
  | nil => rfl
  | cons block rest ih => simp [encrypt, decrypt, ih, cipher.dec_enc, cipher.mask_mask]

theorem decrypt_snd : (decrypt cipher chain blocks).2 = blocks.getLastD chain := by
  induction blocks generalizing chain with
  | nil => rfl
  | cons coded rest ih => rw [decrypt, ih, List.getLastD_cons]

variable {cipher chain blocks}

theorem decrypt_inj {left right : List β} (hdec : Function.Injective cipher.dec)
    (h : (decrypt cipher chain left).1 = (decrypt cipher chain right).1) : left = right := by
  induction left generalizing chain right with
  | nil =>
    cases right with
    | nil => rfl
    | cons coded rest => cases h
  | cons coded left ih =>
    cases right with
    | nil => cases h
    | cons other right =>
      simp only [decrypt, List.cons.injEq] at h
      have hplain := congrArg (cipher.mask · chain) h.1
      simp only [cipher.mask_mask] at hplain
      have hcoded : coded = other := hdec hplain
      rw [hcoded] at h ⊢
      rw [ih h.2]

theorem chain_eq_of_decrypt {other : β} (hmask : ∀ block, Function.Injective (cipher.mask block))
    (hne : blocks ≠ [])
    (h : (decrypt cipher chain blocks).1 = (decrypt cipher other blocks).1) : chain = other := by
  cases blocks with
  | nil => exact absurd rfl hne
  | cons coded rest => exact hmask _ (List.cons.inj h).1

end Blocks

section Bytes

variable {α : Type}

def split (width : Nat) (bytes : List α) : List (Vector α width) :=
  if h : 0 < width ∧ width ≤ bytes.length then
    ⟨(bytes.take width).toArray, by simp [h.2]⟩ :: split width (bytes.drop width)
  else []
termination_by bytes.length
decreasing_by rw [List.length_drop]; omega

def join {width : Nat} (blocks : List (Vector α width)) : List α :=
  blocks.flatMap Vector.toList

@[simp] theorem length_join (blocks : List (Vector α width)) :
    (join blocks).length = blocks.length * width := by
  induction blocks with
  | nil => simp [join]
  | cons block rest ih =>
    unfold join at ih ⊢
    rw [List.flatMap_cons, List.length_append, ih, Vector.length_toList, List.length_cons]
    ring

theorem split_join (hwidth : 0 < width) (blocks : List (Vector α width)) :
    split width (join blocks) = blocks := by
  induction blocks with
  | nil =>
    rw [split, dif_neg]
    rintro ⟨-, hle⟩
    simp only [join, List.flatMap_nil, List.length_nil] at hle
    omega
  | cons block rest ih =>
    have hlength : block.toList.length = width := block.length_toList
    have hjoin : join (block :: rest) = block.toList ++ join rest := rfl
    rw [split, dif_pos ⟨hwidth, by rw [hjoin, List.length_append]; omega⟩]
    congr 1
    · apply Vector.toList_inj.mp
      simp [hjoin, hlength]
    · rw [hjoin, List.drop_left' hlength, ih]

theorem join_split (bytes : List α) (hdvd : width ∣ bytes.length) :
    join (split width bytes) = bytes := by
  fun_induction split width bytes with
  | case1 bytes h ih =>
    have hrest : width ∣ (bytes.drop width).length := by
      rw [List.length_drop]
      exact Nat.dvd_sub hdvd (dvd_refl width)
    have hblock : (Vector.mk (bytes.take width).toArray (by simp [h.2]) : Vector α width).toList =
        bytes.take width := by
      simp
    unfold join at ih ⊢
    rw [List.flatMap_cons, ih hrest, hblock, List.take_append_drop]
  | case2 bytes h =>
    have hnil : bytes.length = 0 := by
      by_contra hne
      have hle := Nat.le_of_dvd (Nat.pos_of_ne_zero hne) hdvd
      have hpos := Nat.pos_of_dvd_of_pos hdvd (Nat.pos_of_ne_zero hne)
      exact h ⟨hpos, hle⟩
    rw [List.length_eq_zero_iff.mp hnil]
    rfl

variable {width : Nat} (cipher : BlockCipher (Vector α width))

def encryptBytes (chain : Vector α width) (bytes : List α) : List α × Vector α width :=
  let coded := encrypt cipher chain (split width bytes)
  (join coded.1, coded.2)

def decryptBytes (chain : Vector α width) (bytes : List α) : List α × Vector α width :=
  let plain := decrypt cipher chain (split width bytes)
  (join plain.1, plain.2)

theorem length_split (bytes : List α) (hdvd : width ∣ bytes.length) :
    (split width bytes).length * width = bytes.length := by
  rw [← length_join, join_split bytes hdvd]

theorem length_encryptBytes (chain : Vector α width) (bytes : List α)
    (hdvd : width ∣ bytes.length) :
    (encryptBytes cipher chain bytes).1.length = bytes.length := by
  simp [encryptBytes, length_split bytes hdvd]

theorem length_decryptBytes (chain : Vector α width) (bytes : List α)
    (hdvd : width ∣ bytes.length) :
    (decryptBytes cipher chain bytes).1.length = bytes.length := by
  simp [decryptBytes, length_split bytes hdvd]

theorem decryptBytes_encryptBytes (hwidth : 0 < width) (chain : Vector α width) (bytes : List α)
    (hdvd : width ∣ bytes.length) :
    decryptBytes cipher chain (encryptBytes cipher chain bytes).1 =
      (bytes, (encryptBytes cipher chain bytes).2) := by
  unfold decryptBytes encryptBytes
  simp only [split_join hwidth, decrypt_encrypt, join_split bytes hdvd]

variable {cipher} {bytes : List α}

theorem join_inj (hwidth : 0 < width) {left right : List (Vector α width)}
    (h : join left = join right) : left = right := by
  rw [← split_join hwidth left, h, split_join hwidth]

theorem split_ne_nil (hdvd : width ∣ bytes.length) (hne : bytes ≠ []) :
    split width bytes ≠ [] := by
  intro hnil
  apply hne
  rw [← join_split bytes hdvd, hnil]
  rfl

theorem decryptBytes_inj (hwidth : 0 < width) (hdec : Function.Injective cipher.dec)
    {left right : List α} (hleft : width ∣ left.length) (hright : width ∣ right.length)
    (h : (decryptBytes cipher chain left).1 = (decryptBytes cipher chain right).1) :
    left = right := by
  rw [← join_split left hleft, decrypt_inj hdec (join_inj hwidth h), join_split right hright]

theorem chain_eq_of_decryptBytes (hwidth : 0 < width)
    (hmask : ∀ block, Function.Injective (cipher.mask block)) (hdvd : width ∣ bytes.length)
    (hne : bytes ≠ [])
    (h : (decryptBytes cipher chain bytes).1 = (decryptBytes cipher other bytes).1) :
    chain = other :=
  chain_eq_of_decrypt hmask (split_ne_nil hdvd hne) (join_inj hwidth h)

variable (cipher)

def lastBlock (width : Nat) (bytes : List α) : List α := bytes.drop (bytes.length - width)

theorem lastBlock_append (front : List α) (last : Vector α width) :
    lastBlock width (front ++ last.toList) = last.toList := by
  simp [lastBlock]

theorem decryptBytes_snd (chain : Vector α width) (hdvd : width ∣ bytes.length) (hne : bytes ≠ []) :
    (decryptBytes cipher chain bytes).2.toList = lastBlock width bytes := by
  have hblocks := split_ne_nil hdvd hne
  have hconcat := List.dropLast_append_getLast hblocks
  have hjoin : bytes = join (split width bytes).dropLast ++
      ((split width bytes).getLast hblocks).toList := by
    nth_rewrite 1 [← join_split bytes hdvd]
    nth_rewrite 1 [← hconcat]
    simp [join]
  have hlast : (decryptBytes cipher chain bytes).2 = (split width bytes).getLast hblocks := by
    unfold decryptBytes
    rw [decrypt_snd, List.getLastD_eq_getLast?, List.getLast?_eq_some_getLast hblocks,
      Option.getD_some]
  rw [hlast]
  conv_rhs => rw [hjoin]
  rw [lastBlock_append]

end Bytes

end Cbc

end Scshr.Lib
