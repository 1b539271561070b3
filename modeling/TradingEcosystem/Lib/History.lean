import Mathlib.Data.List.Basic

/-!
# Laws of histories

A history is a list that grows at its end.  A law says what the next entry may be, given the entries
before it; `Throughout law history` says that every entry obeyed it when it came.

A run of a system has the history of its inputs.  An invariant may speak of it: `inv_of_foldlM_past`
is the induction for an invariant of the state and of the inputs so far.
-/

set_option autoImplicit false

namespace History

variable {α X : Type*} {law : List α → α → Prop} {history : List α}

/-- The law holds of every entry and the entries before it. -/
def Throughout (law : List α → α → Prop) (history : List α) : Prop :=
  ∀ before a after, history = before ++ a :: after → law before a

theorem throughout_nil : Throughout law [] := fun _ _ _ h => absurd h (by simp)

/-- A history that goes on. -/
theorem throughout_concat {a : α} :
    Throughout law (history ++ [a]) ↔ Throughout law history ∧ law history a := by
  constructor
  · refine fun h => ⟨fun before b after hsplit => h before b (after ++ [a]) ?_,
      h history a [] rfl⟩
    rw [hsplit, List.append_assoc, List.cons_append]
  · rintro ⟨h, ha⟩ before b after hsplit
    rcases after.eq_nil_or_concat with rfl | ⟨after, x, rfl⟩
    · obtain ⟨rfl, heq⟩ := List.append_inj' hsplit rfl
      obtain rfl : a = b := List.singleton_inj.1 heq
      exact ha
    · rw [List.concat_eq_append, ← List.cons_append, ← List.append_assoc] at hsplit
      exact h before b after (List.append_inj' hsplit rfl).1

/-- What every step keeps, of the inputs so far and the state, holds behind a run. -/
theorem inv_of_foldlM_past {ε : Type*} {f : X → α → Except ε X} (Inv : List α → X → Prop)
    (hstep : ∀ past x a x', Inv past x → f x a = .ok x' → Inv (past ++ [a]) x')
    (inputs : List α) {past : List α} {x x' : X} (hx : Inv past x)
    (hrun : inputs.foldlM f x = .ok x') : Inv (past ++ inputs) x' := by
  induction inputs generalizing past x with
  | nil =>
    obtain rfl : x = x' := Except.ok.inj hrun
    rwa [List.append_nil]
  | cons a rest ih =>
    rw [List.foldlM_cons] at hrun
    cases ha : f x a with
    | error e =>
      rw [ha] at hrun
      exact absurd hrun (by intro hf; cases hf)
    | ok y =>
      rw [ha] at hrun
      have hall := ih (hstep past x a y hx ha) hrun
      rwa [List.append_assoc] at hall

end History
