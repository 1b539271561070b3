import Mathlib.Logic.Basic

/-!
# Two runs side by side

Two programs that can stop with an error, run on related inputs.  `Agree R x y` says that both stop
with the same error or both return, with results related by `R`.  The rules follow the programs: a
step of both is `Agree.bind`, a test that comes out the same on both sides is `Agree.ite`.  A
simulation is proved by going through the two programs with them, carrying what is known of the two
states in `R`.
-/

set_option autoImplicit false

namespace TwoRuns

universe u v w

variable {ε : Type w} {α γ : Type u} {β δ : Type v}

/-- Both stop with the same error, or both return and their results are related. -/
def Agree (R : α → β → Prop) : Except ε α → Except ε β → Prop
  | .ok a, .ok b => R a b
  | .error e, .error e' => e = e'
  | _, _ => False

variable {R : α → β → Prop} {S : γ → δ → Prop} {x : Except ε α} {y : Except ε β}

theorem Agree.mono {R' : α → β → Prop} (h : Agree R x y) (hR : ∀ a b, R a b → R' a b) :
    Agree R' x y := by
  cases x <;> cases y
  · exact h
  · exact h
  · exact h
  · exact hR _ _ h

/-- One after the other. -/
theorem Agree.bind {f : α → Except ε γ} {g : β → Except ε δ} (h : Agree R x y)
    (hfg : ∀ a b, R a b → Agree S (f a) (g b)) : Agree S (x >>= f) (y >>= g) := by
  cases x <;> cases y
  · exact h
  · exact h.elim
  · exact h.elim
  · exact hfg _ _ h

/-- A test that comes out the same on both sides. -/
theorem Agree.ite {c d : Prop} [Decidable c] [Decidable d] {x' : Except ε α} {y' : Except ε β}
    (hcd : c ↔ d) (ht : c → Agree R x y) (he : ¬ c → Agree R x' y') :
    Agree R (if c then x else x') (if d then y else y') := by
  by_cases hc : c
  · rw [if_pos hc, if_pos (hcd.1 hc)]
    exact ht hc
  · rw [if_neg hc, if_neg fun hd => hc (hcd.2 hd)]
    exact he hc

/-- Step after step.  The first run may also give up with `stop`, and the second is not asked what
it does then. -/
theorem Agree.foldlM_or {ι : Type*} {f : α → ι → Except ε α} {g : β → ι → Except ε β} {stop : ε}
    (hstep : ∀ a b i, R a b → f a i = .error stop ∨ Agree R (f a i) (g b i)) {a : α} {b : β}
    (h : R a b) (is : List ι) :
    is.foldlM f a = .error stop ∨ Agree R (is.foldlM f a) (is.foldlM g b) := by
  induction is generalizing a b with
  | nil => exact Or.inr h
  | cons i is ih =>
    rw [List.foldlM_cons, List.foldlM_cons]
    rcases hstep a b i h with hstop | hagree
    · rw [hstop]
      exact Or.inl rfl
    · cases hf : f a i <;> cases hg : g b i <;> rw [hf, hg] at hagree
      · exact Or.inr hagree
      · exact hagree.elim
      · exact hagree.elim
      · exact ih hagree

/-- Step after step, with nobody giving up. -/
theorem Agree.foldlM {ι : Type*} {f : α → ι → Except ε α} {g : β → ι → Except ε β}
    (hstep : ∀ a b i, R a b → Agree R (f a i) (g b i)) {a : α} {b : β} (h : R a b) (is : List ι) :
    Agree R (is.foldlM f a) (is.foldlM g b) := by
  induction is generalizing a b with
  | nil => exact h
  | cons i is ih =>
    rw [List.foldlM_cons, List.foldlM_cons]
    exact (hstep a b i h).bind fun a' b' h' => ih h'

/-- Where the first run returns, so does the second. -/
theorem Agree.of_ok {a : α} (h : Agree R x y) (hx : x = .ok a) : ∃ b, y = .ok b ∧ R a b := by
  subst hx
  cases y with
  | error e => exact h.elim
  | ok b => exact ⟨b, rfl, h⟩

/-- Where the second run returns, so does the first. -/
theorem Agree.to_ok {b : β} (h : Agree R x y) (hy : y = .ok b) : ∃ a, x = .ok a ∧ R a b := by
  subst hy
  cases x with
  | error e => exact h.elim
  | ok a => exact ⟨a, rfl, h⟩

/-- A run agrees with its image, and what is known of its result is kept. -/
theorem Agree.of_map {f : α → β} {P : α → Prop} (hy : y = x.map f) (hP : ∀ a, x = .ok a → P a) :
    Agree (fun a b => b = f a ∧ P a) x y := by
  subst hy
  cases x with
  | error e => exact rfl
  | ok a => exact ⟨rfl, hP a rfl⟩

/-- Two runs that agree with one and the same run, the second up to a function of its result. -/
theorem Agree.join {τ : Type*} {f : β → δ} {Q : τ → δ → Prop} {z : Except ε τ} (h : Agree R x y)
    (hz : Agree Q z (y.map f)) : Agree (fun a c => ∃ b, R a b ∧ Q c (f b)) x z := by
  cases x <;> cases y <;> cases z
  · exact h.trans hz.symm
  · exact hz
  · exact h.elim
  · exact h.elim
  · exact h.elim
  · exact h.elim
  · exact hz
  · exact ⟨_, h, hz⟩

/-- Where the relation is a function, agreeing is an equation. -/
theorem Agree.eq_map {f : α → β} (h : Agree (fun a b => b = f a) x y) : y = x.map f := by
  cases x <;> cases y
  · exact congrArg Except.error h.symm
  · exact h.elim
  · exact h.elim
  · exact congrArg Except.ok h

end TwoRuns
