import Mathlib.Data.List.Basic

/-! Straight-line programs whose commands can fail.  A failing command ends the
program in the state it leaves; a program can also be cut off between two commands. -/
namespace Scshr.Lib.Script

open List

section

variable {σ ε : Type}

abbrev Command (σ ε : Type) := σ → Option ε × σ

def run : List (Command σ ε) → σ → Option ε × σ
  | [], state => (none, state)
  | command :: rest, state =>
      match command state with
      | (none, next) => run rest next
      | (some error, last) => (some error, last)

variable {command : Command σ ε} {rest commands : List (Command σ ε)} {state next last : σ}
  {error : ε}

theorem run_cons_none (h : command state = (none, next)) :
    run (command :: rest) state = run rest next := by
  rw [run, h]

theorem run_cons_some (h : command state = (some error, last)) :
    run (command :: rest) state = (some error, last) := by
  rw [run, h]

theorem run_cons_ok (h : (command state).1 = none) :
    run (command :: rest) state = run rest (command state).2 :=
  run_cons_none (Prod.ext h rfl)

theorem run_cons_ok_iff :
    (run (command :: rest) state).1 = none ↔
      (command state).1 = none ∧ (run rest (command state).2).1 = none := by
  cases hcommand : command state with
  | mk error next =>
    cases error with
    | none => simp [run_cons_none hcommand]
    | some error => simp [run_cons_some hcommand]

theorem run_append_none (h : run commands state = (none, next)) :
    run (commands ++ rest) state = run rest next := by
  induction commands generalizing state with
  | nil =>
    cases h
    rfl
  | cons command more ih =>
    rw [cons_append]
    cases hcommand : command state with
    | mk error middle =>
      cases error with
      | none =>
        rw [run_cons_none hcommand] at h ⊢
        exact ih h
      | some error =>
        rw [run_cons_some hcommand] at h
        cases h

theorem run_append_some (rest : List (Command σ ε)) (h : run commands state = (some error, last)) :
    run (commands ++ rest) state = (some error, last) := by
  induction commands generalizing state with
  | nil => cases h
  | cons command more ih =>
    rw [cons_append]
    cases hcommand : command state with
    | mk result middle =>
      cases result with
      | none =>
        rw [run_cons_none hcommand] at h ⊢
        exact ih h
      | some first =>
        rw [run_cons_some hcommand] at h ⊢
        exact h

theorem run_error {P : ε → Prop}
    (hstep : ∀ command ∈ commands, ∀ state error, (command state).1 = some error → P error)
    (h : (run commands state).1 = some error) : P error := by
  induction commands generalizing state with
  | nil => cases h
  | cons command rest ih =>
    rw [forall_mem_cons] at hstep
    cases hcommand : command state with
    | mk result next =>
      cases result with
      | none =>
        rw [run_cons_none hcommand] at h
        exact ih hstep.2 h
      | some first =>
        rw [run_cons_some hcommand] at h
        cases h
        exact hstep.1 state error (by rw [hcommand])

theorem run_invariant {P : σ → Prop}
    (hstep : ∀ command ∈ commands, ∀ state, P state → P (command state).2) (hstate : P state) :
    P (run commands state).2 := by
  induction commands generalizing state with
  | nil => exact hstate
  | cons command rest ih =>
    rw [forall_mem_cons] at hstep
    have hnext := hstep.1 state hstate
    cases hcommand : command state with
    | mk error next =>
      rw [hcommand] at hnext
      cases error with
      | none =>
        rw [run_cons_none hcommand]
        exact ih hstep.2 hnext
      | some error =>
        rw [run_cons_some hcommand]
        exact hnext

/-! ## Runs through known states -/

/-- Where the command gets what it asks for it goes on `after`, and where it does not it ends
the program in `broken`. -/
structure Answers (command : Command σ ε) (answered : Prop) (before after broken : σ) : Prop where
  next : answered → command before = (none, after)
  stops : ¬answered → ∃ error, command before = (some error, broken)

theorem Answers.always (h : command state = (none, next)) (broken : σ) :
    Answers command True state next broken :=
  ⟨fun _ => h, fun hnot => absurd trivial hnot⟩

variable (stage broken : Nat → σ) (Answered : Nat → Prop)

/-- The commands go from stage to stage, the first one from stage `n`. -/
def Staged : Nat → List (Command σ ε) → Prop
  | _, [] => True
  | n, command :: rest =>
      Answers command (Answered n) (stage n) (stage (n + 1)) (broken n) ∧ Staged (n + 1) rest

variable {stage broken Answered}

theorem Staged.run_take (h : Staged stage broken Answered n commands)
    (hdone : done ≤ commands.length) (hbefore : ∀ i < done, Answered (n + i)) :
    run (commands.take done) (stage n) = (none, stage (n + done)) := by
  induction commands generalizing n done with
  | nil =>
    cases Nat.le_zero.mp hdone
    rfl
  | cons command rest ih =>
    cases done with
    | zero => rfl
    | succ done =>
      have hnext : ∀ i < done, Answered (n + 1 + i) := by
        intro i hi
        rw [Nat.add_assoc, Nat.add_comm 1 i]
        exact hbefore (i + 1) (Nat.succ_lt_succ hi)
      rw [take_succ_cons, run_cons_none (h.1.next (hbefore 0 done.succ_pos)),
        ih h.2 (Nat.le_of_succ_le_succ hdone) hnext, Nat.add_assoc, Nat.add_comm 1 done]

theorem Staged.run_stops (h : Staged stage broken Answered n commands)
    (hdone : done < commands.length) (hbefore : ∀ i < done, Answered (n + i))
    (hnot : ¬Answered (n + done)) (hlimit : done < limit) :
    ∃ error, run (commands.take limit) (stage n) = (some error, broken (n + done)) := by
  induction commands generalizing n done limit with
  | nil => cases hdone
  | cons command rest ih =>
    cases limit with
    | zero => cases hlimit
    | succ limit =>
      rw [take_succ_cons]
      cases done with
      | zero =>
        obtain ⟨error, herror⟩ := h.1.stops hnot
        exact ⟨error, run_cons_some herror⟩
      | succ done =>
        have hnext : ∀ i < done, Answered (n + 1 + i) := by
          intro i hi
          rw [Nat.add_assoc, Nat.add_comm 1 i]
          exact hbefore (i + 1) (Nat.succ_lt_succ hi)
        rw [Nat.add_comm done 1, ← Nat.add_assoc] at hnot ⊢
        rw [run_cons_none (h.1.next (hbefore 0 done.succ_pos))]
        exact ih h.2 (Nat.lt_of_succ_lt_succ hdone) hnext hnot (Nat.lt_of_succ_lt_succ hlimit)

end

end Scshr.Lib.Script
