import Mathlib.Algebra.BigOperators.Group.List.Basic
import Mathlib.Data.List.AList

/-! Non-dependent association maps on top of `AList`: selective erasure, the
size bookkeeping that loops over a shrinking map need, and sums over the values. -/
namespace Scshr.Lib

open List AList

abbrev AssocMap (κ ν : Type) := AList fun _ : κ => ν

namespace AssocMap

variable {κ ν : Type} [DecidableEq κ]

def keepIf (map : AssocMap κ ν) (test : ν → Bool) : AssocMap κ ν :=
  ⟨map.entries.filter fun entry => test entry.2, map.nodupKeys.sublist filter_sublist⟩

variable {map : AssocMap κ ν} {key : κ} {value : ν}

theorem lookup_keepIf (map : AssocMap κ ν) (test : ν → Bool) (key : κ) :
    (keepIf map test).lookup key = (map.lookup key).filter test := by
  ext value
  rw [← Option.mem_def, mem_lookup_iff]
  simp only [keepIf, mem_filter, Option.filter_eq_some_iff, ← mem_lookup_iff,
    Option.mem_def]

theorem mem_of_lookup (h : map.lookup key = some value) : key ∈ map.keys := by
  rw [← AList.mem_keys, ← AList.lookup_isSome, h]
  rfl

theorem erase_of_lookup_none (h : map.lookup key = none) : map.erase key = map := by
  apply AList.ext
  apply kerase_of_notMem_keys
  exact lookup_eq_none.mp h

theorem length_keys_erase_insert (h : map.lookup key = some old) :
    ((map.insert key value).erase key).keys.length < map.keys.length := by
  have hmem := mem_of_lookup h
  have hpos := length_pos_of_mem hmem
  rw [keys_erase, keys_insert, erase_cons_head, length_erase_of_mem hmem]
  omega

section Total

variable {M : Type} [AddCommMonoid M] (weight : ν → M)

def total (map : AssocMap κ ν) : M := (map.entries.map fun entry => weight entry.2).sum

omit [DecidableEq κ] in
theorem total_empty : total weight (∅ : AssocMap κ ν) = 0 := rfl

theorem total_insert (map : AssocMap κ ν) (key : κ) (value : ν) :
    total weight (map.insert key value) = weight value + total weight (map.erase key) := by
  unfold total
  rw [entries_insert, map_cons, sum_cons]
  rfl

theorem total_erase (h : map.lookup key = some value) :
    total weight map = weight value + total weight (map.erase key) := by
  obtain ⟨found, before, after, -, hentries, herased⟩ :=
    exists_of_kerase (mem_keys.mp (mem_of_lookup h))
  have hmem : ⟨key, found⟩ ∈ map.entries := by simp [hentries]
  obtain rfl : found = value :=
    Option.some_inj.mp ((mem_lookup_iff.mpr hmem).symm.trans h)
  have hrest : (map.erase key).entries = before ++ after := herased
  unfold total
  rw [hentries, hrest, map_append, map_append, map_cons, sum_append,
    sum_append, sum_cons, add_left_comm]

end Total

end AssocMap

end Scshr.Lib
