import TradingEcosystem.Lib.Along

/-!
# Systems that get through

A system that goes on in rounds of steps, with a measure of what has been done that is bounded.  If
every round does something, or finds the goal reached, then more rounds than there is left to do
reach it, whatever the steps of a round are and in which order they come.

`Along.reaches` is that rule, for rounds that meet a condition all along, and `Along.rounds` makes
rounds of the steps of a run.
-/

set_option autoImplicit false

namespace Run

variable {X I : Type*} {ε : Type*} {f : X → I → Except ε X} {next : X → I → X → Prop}
  {cond : X → I → Prop}

/-- A run is a run of its rounds. -/
theorem foldlM_flatten (rounds : List (List I)) (x : X) :
    rounds.flatten.foldlM f x = rounds.foldlM (fun x is => is.foldlM f x) x := by
  induction rounds generalizing x with
  | nil => rfl
  | cons is rounds ih =>
    rw [List.flatten_cons, List.foldlM_append, List.foldlM_cons]
    exact congrArg _ (funext fun y => ih y)

/-- What holds along a run holds along each of its rounds. -/
theorem Along.rounds (hnext : ∀ x i x', f x i = .ok x' → next x i x') {x : X}
    {rounds : List (List I)} (h : Along next cond x rounds.flatten) :
    Along (fun x is x' => is.foldlM f x = .ok x') (fun x is => Along next cond x is) x rounds := by
  induction rounds generalizing x with
  | nil => trivial
  | cons is rounds ih =>
    rw [List.flatten_cons] at h
    refine ⟨?_, fun x' hx' => ih (h.behind hnext hx')⟩
    have hfirst := h.take is.length
    rwa [List.take_left] at hfirst

/-- **Bounded work in rounds.** -/
theorem Along.reaches (Inv Goal : X → Prop) (done : X → Nat) {bound : Nat}
    (hnext : ∀ x i x', f x i = .ok x' → next x i x')
    (hinv : ∀ x i x', Inv x → cond x i → next x i x' → Inv x')
    (hbound : ∀ x, Inv x → done x ≤ bound)
    (hkeeps : ∀ x i x', Inv x → cond x i → next x i x' → Goal x → Goal x')
    (hmore : ∀ x i x', Inv x → cond x i → next x i x' → done x < done x' ∨ Goal x')
    {x x' : X} {is : List I} (h : Along next cond x is) (hx : Inv x)
    (hlen : Goal x ∨ bound - done x < is.length) (hrun : is.foldlM f x = .ok x') : Goal x' := by
  induction is generalizing x with
  | nil =>
    obtain rfl : x = x' := Except.ok.inj hrun
    exact hlen.resolve_right (Nat.not_lt_zero _)
  | cons i is ih =>
    rw [List.foldlM_cons] at hrun
    cases hi : f x i with
    | error e =>
      rw [hi] at hrun
      exact absurd hrun (by intro hf; cases hf)
    | ok y =>
      rw [hi] at hrun
      have hy := hnext x i y hi
      have hinvy := hinv x i y hx h.1 hy
      refine ih (h.2 y hy) hinvy ?_ hrun
      rcases hlen with hgoal | hlen
      · exact Or.inl (hkeeps x i y hx h.1 hy hgoal)
      · refine (hmore x i y hx h.1 hy).symm.imp_right fun hlt => ?_
        have hle := hbound y hinvy
        rw [List.length_cons] at hlen
        omega

end Run
