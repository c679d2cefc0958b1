import Mathlib.Data.List.Basic

/-! Readers of the front of a list that may fail.  A local one does not look behind what it
takes. -/
namespace Scshr.Lib

abbrev FrontReader (β : Type) := StateT (List β) Option

namespace FrontReader

variable {α β γ : Type}

def item : FrontReader β β
  | [] => none
  | value :: rest => some (value, rest)

/-- An item that may be absent. -/
def readIf (present : Prop) [Decidable present] (reader : FrontReader β α) (absent : α) :
    FrontReader β α :=
  if present then reader else pure absent

/-- The reader takes these items, whatever follows. -/
def Takes (reader : FrontReader β α) (used : List β) (value : α) : Prop :=
  ∀ tail, reader (used ++ tail) = some (value, tail)

def Local (reader : FrontReader β α) : Prop :=
  ∀ input value rest, reader input = some (value, rest) →
    ∃ used, input = used ++ rest ∧ reader.Takes used value

theorem bind_eq_some {reader : FrontReader β α} {next : α → FrontReader β γ} {input rest : List β}
    {value : γ} (h : (reader >>= next) input = some (value, rest)) :
    ∃ first middle, reader input = some (first, middle) ∧
      next first middle = some (value, rest) := by
  obtain ⟨⟨first, middle⟩, found, later⟩ := Option.bind_eq_some_iff.mp h
  exact ⟨first, middle, found, later⟩

theorem Takes.bind {reader : FrontReader β α} {next : α → FrontReader β γ} {front back : List β}
    {first : α} {value : γ} (taken : reader.Takes front first)
    (later : (next first).Takes back value) : (reader >>= next).Takes (front ++ back) value := by
  intro tail
  change (reader (front ++ back ++ tail)).bind _ = _
  rw [List.append_assoc, taken]
  exact later tail

theorem takes_pure (value : α) : (pure value : FrontReader β α).Takes [] value := fun _ => rfl

theorem local_pure (value : α) : Local (pure value : FrontReader β α) := by
  rintro input _ _ ⟨⟩
  exact ⟨[], rfl, takes_pure value⟩

theorem local_failure : Local (failure : FrontReader β α) := nofun

theorem local_item : Local (item : FrontReader β β) := by
  rintro (- | ⟨value, rest⟩) _ _ ⟨⟩
  exact ⟨[value], rfl, fun _ => rfl⟩

theorem Local.bind {reader : FrontReader β α} {next : α → FrontReader β γ} (here : reader.Local)
    (later : ∀ first, (next first).Local) : (reader >>= next).Local := by
  intro input value rest h
  obtain ⟨first, middle, found, finished⟩ := bind_eq_some h
  obtain ⟨front, rfl, taken⟩ := here _ _ _ found
  obtain ⟨back, rfl, ended⟩ := later _ _ _ _ finished
  exact ⟨front ++ back, (List.append_assoc ..).symm, taken.bind ended⟩

theorem Local.ite {cond : Prop} [Decidable cond] {yes no : FrontReader β α} (hyes : yes.Local)
    (hno : no.Local) : (if cond then yes else no).Local := by
  split
  · exact hyes
  · exact hno

theorem Local.readIf {present : Prop} [Decidable present] {reader : FrontReader β α}
    (here : reader.Local) (absent : α) : (readIf present reader absent).Local :=
  here.ite (local_pure absent)

end FrontReader

end Scshr.Lib
