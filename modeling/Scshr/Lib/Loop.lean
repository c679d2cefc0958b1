import Mathlib.Logic.Relation

/-! Loops as deterministic steps: one iteration goes on, ends with a result, or
faults.  The rules below turn what single iterations do into what whole runs do. -/
namespace Scshr.Lib

inductive Iteration (σ ρ : Type) where
  | next (state : σ)
  | done (result : ρ)
  | fault
  deriving DecidableEq, Repr

section Loops

variable {σ ρ : Type} (step : σ → Iteration σ ρ)

def Reaches : σ → σ → Prop :=
  Relation.ReflTransGen fun state state' => step state = .next state'

def Ends (start : σ) : Prop :=
  ∃ last result, Reaches step start last ∧ step last = .done result

def Returns (start : σ) (result : ρ) : Prop :=
  ∃ last, Reaches step start last ∧ step last = .done result

/-- Every iteration of the run advances and none faults, and the run ends. -/
structure Progresses (advances : σ → σ → Prop) (start : σ) : Prop where
  noFault : ∀ state, Reaches step start state → step state ≠ .fault
  advance : ∀ state state', Reaches step start state → step state = .next state' →
    advances state state'
  ends : Ends step start

variable {step} {start state : σ} {result : ρ}

theorem Reaches.invariant {P : σ → Prop} (h : Reaches step start state) (hstart : P start)
    (hstep : ∀ s s', Reaches step start s → P s → step s = .next s' → P s') : P state := by
  induction h with
  | refl => exact hstart
  | tail hreach hnext ih => exact hstep _ _ hreach ih hnext

theorem Returns.done (last : step start = .done result) :
    Returns step start result :=
  ⟨start, .refl, last⟩

theorem Returns.next (first : step start = .next state) (rest : Returns step state result) :
    Returns step start result := by
  obtain ⟨last, reach, done⟩ := rest
  exact ⟨last, .head first reach, done⟩

theorem ends_of_measure (measure : σ → Nat)
    (hfault : ∀ state, Reaches step start state → step state ≠ .fault)
    (hdown : ∀ state state', Reaches step start state → step state = .next state' →
      measure state' < measure state) : Ends step start := by
  -- from every state of the run, by induction on its measure
  suffices hall : ∀ size state, measure state = size → Reaches step start state →
      Ends step start from hall _ start rfl .refl
  intro size
  induction size using Nat.strongRecOn with
  | ind size ih =>
    intro state hsize hreach
    cases hstep : step state with
    | next state' =>
      have hless := hdown state state' hreach hstep
      exact ih (measure state') (by omega) state' rfl (hreach.tail hstep)
    | done result => exact ⟨state, result, hreach, hstep⟩
    | fault => exact absurd hstep (hfault state hreach)

theorem not_ends_of_self (hself : step start = .next start) : ¬ Ends step start := by
  rintro ⟨last, result, hreach, hdone⟩
  have hlast : start = last := by
    apply hreach.invariant rfl
    rintro state state' - rfl hnext
    rw [hself] at hnext
    exact Iteration.next.inj hnext
  rw [← hlast, hself] at hdone
  cases hdone

/-- A local condition on states that says exactly when the iteration from them
is fault-free and advances decides whether the run progresses. -/
theorem progresses_iff {advances : σ → σ → Prop} {good : σ → Prop} (inv : σ → Prop)
    (measure : σ → Nat) (hstart : inv start)
    (hlocal : ∀ state, inv state → (good state ↔
      step state ≠ .fault ∧ ∀ state', step state = .next state' → advances state state'))
    (hinv : ∀ state state', inv state → good state → step state = .next state' → inv state')
    (hdown : ∀ state state', inv state → good state → step state = .next state' →
      measure state' < measure state) :
    Progresses step advances start ↔ ∀ state, Reaches step start state → good state := by
  constructor
  · intro hrun state hreach
    have hgood : ∀ s, Reaches step start s → inv s → good s := fun s hs hi =>
      (hlocal s hi).mpr ⟨hrun.noFault s hs, fun s' => hrun.advance s s' hs⟩
    apply hgood state hreach
    apply hreach.invariant hstart
    intro s s' hs hi hnext
    exact hinv s s' hi (hgood s hs hi) hnext
  · intro hgood
    have hall : ∀ s, Reaches step start s → inv s := by
      intro s hs
      apply hs.invariant hstart
      intro t t' ht hi hnext
      exact hinv t t' hi (hgood t ht) hnext
    have hpair : ∀ s, Reaches step start s →
        step s ≠ .fault ∧ ∀ s', step s = .next s' → advances s s' := fun s hs =>
      (hlocal s (hall s hs)).mp (hgood s hs)
    refine ⟨fun s hs => (hpair s hs).1, fun s s' hs => (hpair s hs).2 s', ?_⟩
    apply ends_of_measure measure
    · exact fun s hs => (hpair s hs).1
    · exact fun s s' hs => hdown s s' (hall s hs) (hgood s hs)

end Loops

end Scshr.Lib
