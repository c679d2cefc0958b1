import Mathlib.Order.Basic

/-! Programs over a source that count the turns of their loops and stop with a fault at the first
operation out of range, next to the plain programs without count and checks.  A program runs as a
plain one under a condition if it has the plain result wherever the condition holds, at a bounded
cost, and stops with a fault everywhere else. -/
namespace Scshr.Lib.Metering

structure Meter (ρ : Type) where
  source : ρ
  steps : Nat
  deriving DecidableEq

abbrev Program (ε ρ : Type) := StateT (Meter ρ) (Except ε)

section

variable {ε ρ α β : Type}

def turn : Program ε ρ Unit := modify fun m => { m with steps := m.steps + 1 }

def demand (need : Prop) [Decidable need] (fault : ε) : Program ε ρ Unit :=
  if need then pure () else throw fault

/-- What is to hold of the value a plain program reads, and of the source behind it. -/
def After (plain : StateM ρ α) (holds : α → ρ → Prop) (source : ρ) : Prop :=
  holds (plain source).1 (plain source).2

/-- What holds of the value whatever the source. -/
def Yields (plain : StateM ρ α) (P : α → Prop) : Prop := ∀ source, P (plain source).1

/-- The sources are those of a scope that the plain program does not leave. -/
def Runs (scope : ρ → Prop) (program : Program ε ρ α) (plain : StateM ρ α) (fits : ρ → Prop)
    (cost : Nat) : Prop :=
  ∀ source steps, scope source →
    (fits source → scope (plain source).2 ∧ ∃ steps' ≤ steps + cost,
      program ⟨source, steps⟩ = .ok ((plain source).1, ⟨(plain source).2, steps'⟩)) ∧
    (¬ fits source → ∃ fault, program ⟨source, steps⟩ = .error fault)

variable {scope fits fits' : ρ → Prop} {program program' : Program ε ρ α}
  {plain plain' : StateM ρ α} {cost cost' : Nat} {next : α → Program ε ρ β}
  {plainNext : α → StateM ρ β} {fitsNext : α → ρ → Prop} {need : Prop}

section

variable {P : α → Prop} {Q : β → Prop}

theorem yields_pure {value : α} (holds : P value) : Yields (pure value : StateM ρ α) P :=
  fun _ => holds

theorem Yields.bind (first : Yields plain P)
    (second : ∀ value, P value → Yields (plainNext value) Q) : Yields (plain >>= plainNext) Q :=
  fun source => second _ (first source) (plain source).2

theorem yields_bind (plain : StateM ρ α) (second : ∀ value, Yields (plainNext value) Q) :
    Yields (plain >>= plainNext) Q :=
  fun source => second _ (plain source).2

theorem Yields.ite [Decidable need] (yes : need → Yields plain P) (no : ¬ need → Yields plain' P) :
    Yields (if need then plain else plain') P := by
  split
  · exact yes ‹_›
  · exact no ‹_›

end

theorem runs_pure (value : α) :
    Runs scope (pure value : Program ε ρ α) (pure value) (fun _ => True) 0 :=
  fun _ steps inside =>
    ⟨fun _ => ⟨inside, steps, Nat.le_refl _, rfl⟩, fun no => absurd trivial no⟩

theorem bind_ok {m m' : Meter ρ} {value : α} (ran : program m = .ok (value, m')) :
    (program >>= next) m = next value m' := by
  change (program m >>= fun result => next result.1 result.2) = _
  rw [ran]
  rfl

theorem bind_error {m : Meter ρ} {fault : ε} (ran : program m = .error fault) :
    (program >>= next) m = .error fault := by
  change (program m >>= fun result => next result.1 result.2) = _
  rw [ran]
  rfl

theorem Runs.bind_of {P : α → Prop} (first : Runs scope program plain fits cost)
    (known : Yields plain P)
    (second : ∀ value, P value →
      Runs scope (next value) (plainNext value) (fitsNext value) cost') :
    Runs scope (program >>= next) (plain >>= plainNext)
      (fun source => fits source ∧ After plain fitsNext source) (cost + cost') := by
  intro source steps inside
  obtain ⟨good, bad⟩ := first source steps inside
  have later := second _ (known source) (plain source).2
  constructor
  · rintro ⟨here, there⟩
    obtain ⟨between, spent, bound, ran⟩ := good here
    obtain ⟨behind, spent', bound', ran'⟩ := (later spent between).1 there
    exact ⟨behind, spent', by omega, (bind_ok ran).trans ran'⟩
  · intro no
    by_cases here : fits source
    · obtain ⟨between, spent, -, ran⟩ := good here
      obtain ⟨fault, ran'⟩ := (later spent between).2 fun there => no ⟨here, there⟩
      exact ⟨fault, (bind_ok ran).trans ran'⟩
    · obtain ⟨fault, ran⟩ := bad here
      exact ⟨fault, bind_error ran⟩

theorem Runs.bind (first : Runs scope program plain fits cost)
    (second : ∀ value, Runs scope (next value) (plainNext value) (fitsNext value) cost') :
    Runs scope (program >>= next) (plain >>= plainNext)
      (fun source => fits source ∧ After plain fitsNext source) (cost + cost') :=
  first.bind_of (P := fun _ => True) (fun _ => trivial) fun value _ => second value

/-- Behind a program that computes a value without a look at the source. -/
theorem Runs.value {value : α} {rest : StateM ρ β} {fitsRest : ρ → Prop}
    (first : Runs scope program (pure value) fits cost)
    (second : Runs scope (next value) rest fitsRest cost') :
    Runs scope (program >>= next) rest (fun source => fits source ∧ fitsRest source)
      (cost + cost') := by
  have same (other : α) (eq : other = value) : Runs scope (next other) rest fitsRest cost' := by
    rw [eq]
    exact second
  exact first.bind_of (P := (· = value)) (yields_pure rfl) same

theorem Runs.congr (runs : Runs scope program plain fits cost)
    (same : ∀ source, scope source → (fits' source ↔ fits source)) :
    Runs scope program plain fits' cost := by
  intro source steps inside
  rw [same source inside]
  exact runs source steps inside

theorem Runs.mono (runs : Runs scope program plain fits cost)
    (le : ∀ source, scope source → fits source → cost ≤ cost') :
    Runs scope program plain fits cost' := by
  intro source steps inside
  obtain ⟨good, bad⟩ := runs source steps inside
  refine ⟨fun here => ?_, bad⟩
  obtain ⟨between, spent, bound, ran⟩ := good here
  have more := le source inside here
  exact ⟨between, spent, by omega, ran⟩

theorem Runs.of_le (runs : Runs scope program plain fits cost) (le : cost ≤ cost') :
    Runs scope program plain fits cost' :=
  runs.mono fun _ _ _ => le

theorem runs_done (value : α) :
    Runs scope (pure value : Program ε ρ α) (pure value) (fun _ => True) cost :=
  (runs_pure value).of_le (Nat.zero_le cost)

/-- Behind a program that cannot fail. -/
theorem Runs.andThen_of {P : α → Prop} (first : Runs scope program plain (fun _ => True) cost)
    (known : Yields plain P)
    (second : ∀ value, P value →
      Runs scope (next value) (plainNext value) (fitsNext value) cost') :
    Runs scope (program >>= next) (plain >>= plainNext) (After plain fitsNext) (cost + cost') :=
  (first.bind_of known second).congr fun _ _ => iff_of_eq (true_and _).symm

theorem Runs.andThen (first : Runs scope program plain (fun _ => True) cost)
    (second : ∀ value, Runs scope (next value) (plainNext value) (fitsNext value) cost') :
    Runs scope (program >>= next) (plain >>= plainNext) (After plain fitsNext) (cost + cost') :=
  first.andThen_of (P := fun _ => True) (fun _ => trivial) fun value _ => second value

theorem ite_bind (need : Prop) [Decidable need] (plain plain' : StateM ρ α)
    (plainNext : α → StateM ρ β) :
    (if need then plain else plain') >>= plainNext =
      if need then plain >>= plainNext else plain' >>= plainNext := by
  split <;> rfl

/-- Behind an optional part; what follows stands in both branches. -/
theorem Runs.bindIf [Decidable need]
    (first : Runs scope program (if need then plain else plain') fits cost)
    (second : ∀ value, Runs scope (next value) (plainNext value) (fitsNext value) cost') :
    Runs scope (program >>= next) (if need then plain >>= plainNext else plain' >>= plainNext)
      (fun source => fits source ∧ After (if need then plain else plain') fitsNext source)
      (cost + cost') := by
  rw [← ite_bind]
  exact first.bind second

theorem Runs.join [Decidable need]
    (first : Runs scope program (if need then plain else plain') (fun _ => True) cost)
    (second : ∀ value, Runs scope (next value) (plainNext value) (fitsNext value) cost') :
    Runs scope (program >>= next) (if need then plain >>= plainNext else plain' >>= plainNext)
      (After (if need then plain else plain') fitsNext) (cost + cost') :=
  (first.bindIf second).congr fun _ _ => iff_of_eq (true_and _).symm

theorem Runs.map {f : α → β} (runs : Runs scope program plain fits cost) :
    Runs scope (program >>= fun value => pure (f value)) (plain >>= fun value => pure (f value))
      fits cost :=
  (runs.bind fun value => runs_pure (f value)).congr fun _ _ => (and_iff_left trivial).symm

theorem Runs.turn (runs : Runs scope program plain fits cost) :
    Runs scope (Metering.turn >>= fun _ => program) plain fits (cost + 1) := by
  intro source steps inside
  obtain ⟨good, bad⟩ := runs source (steps + 1) inside
  refine ⟨fun here => ?_, bad⟩
  obtain ⟨between, spent, bound, ran⟩ := good here
  exact ⟨between, spent, by omega, ran⟩

theorem Runs.demand [Decidable need] {fault : ε} {rest : Unit → Program ε ρ α}
    (runs : need → Runs scope (rest ()) plain fits cost) :
    Runs scope (Metering.demand need fault >>= rest) plain (fun source => need ∧ fits source)
      cost := by
  intro source steps inside
  by_cases holds : need
  · simp only [Metering.demand, holds, true_and]
    exact runs holds source steps inside
  · refine ⟨fun here => absurd here.1 holds, fun _ => ⟨fault, ?_⟩⟩
    rw [Metering.demand, if_neg holds]
    rfl

theorem Runs.ite [Decidable need] (yes : need → Runs scope program plain fits cost)
    (no : ¬ need → Runs scope program' plain' fits' cost) :
    Runs scope (if need then program else program') (if need then plain else plain')
      (if need then fits else fits') cost := by
  split
  · exact yes ‹_›
  · exact no ‹_›

end

end Scshr.Lib.Metering
