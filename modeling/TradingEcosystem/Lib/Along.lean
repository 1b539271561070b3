import Mathlib.Logic.Basic

/-!
# Properties of every step of a run

A system takes inputs one at a time; `next x i x'` says that input `i` may take it from `x` to
`x'`.  `Along next good x is` says that every step the system takes on the inputs `is`, from `x`
on, is `good`.  Where a step has no outcome the run ends, and whether that is good is for `good` to
say.

The rule that carries a development is `along_congr`: if, as long as an invariant holds, a step is
good exactly when it meets a condition, then a whole run is good exactly when all of its steps meet
the condition.
-/

set_option autoImplicit false

namespace Run

variable {X Y I : Type*} {next : X → I → X → Prop} {good cond : X → I → Prop}

/-- Every step of the run on the inputs, from the state on, is good. -/
def Along (next : X → I → X → Prop) (good : X → I → Prop) : X → List I → Prop
  | _, [] => True
  | x, i :: is => good x i ∧ ∀ x', next x i x' → Along next good x' is

@[simp] theorem along_nil (x : X) : Along next good x [] := trivial

theorem along_cons (x : X) (i : I) (is : List I) : Along next good x (i :: is) ↔
    good x i ∧ ∀ x', next x i x' → Along next good x' is := Iff.rfl

/-- Where the next state is computed, running the inputs tells whether every step is good. -/
def decidableAlong {ε : Type*} (f : X → I → Except ε X)
    (hnext : ∀ x i x', next x i x' ↔ f x i = .ok x') [∀ x i, Decidable (good x i)] :
    (x : X) → (is : List I) → Decidable (Along next good x is)
  | _, [] => .isTrue trivial
  | x, i :: is =>
    match hf : f x i with
    | .error _ => decidable_of_iff (good x i)
        ⟨fun h => ⟨h, fun x' hn => absurd (hf.symm.trans ((hnext x i x').1 hn)) nofun⟩, And.left⟩
    | .ok y =>
      have := decidableAlong f hnext y is
      decidable_of_iff (good x i ∧ Along next good y is)
        ⟨fun h => ⟨h.1, fun x' hn =>
            (Except.ok.inj (hf.symm.trans ((hnext x i x').1 hn)) : y = x') ▸ h.2⟩,
          fun h => ⟨h.1, h.2 y ((hnext x i y).2 hf)⟩⟩

/-- **The exact condition of a run.**  Under an invariant that good steps keep, goodness and the
condition may be exchanged at every step. -/
theorem along_congr (Inv : X → Prop) (valid : X → I → Prop)
    (hstep : ∀ x i, Inv x → valid x i → (good x i ↔ cond x i))
    (hinv : ∀ x i x', Inv x → valid x i → cond x i → next x i x' → Inv x') {x : X} {is : List I}
    (hx : Inv x) (hv : Along next valid x is) :
    Along next good x is ↔ Along next cond x is := by
  induction is generalizing x with
  | nil => exact Iff.rfl
  | cons i is ih =>
    obtain ⟨hvi, hvs⟩ := hv
    rw [along_cons, along_cons, hstep x i hx hvi]
    refine and_congr_right fun hc => forall_congr' fun x' => ?_
    refine imp_congr_right fun hn => ih (hinv x i x' hx hvi hc hn) (hvs x' hn)

/-- Under an invariant, a condition that makes every step good makes every run good. -/
theorem Along.imp (Inv : X → Prop) (hstep : ∀ x i, Inv x → cond x i → good x i)
    (hinv : ∀ x i x', Inv x → cond x i → next x i x' → Inv x') {x : X} {is : List I} (hx : Inv x)
    (h : Along next cond x is) : Along next good x is := by
  induction is generalizing x with
  | nil => trivial
  | cons i is ih =>
    exact ⟨hstep x i hx h.1, fun x' hn => ih (hinv x i x' hx h.1 hn) (h.2 x' hn)⟩

/-- A requirement on a part of the state holds along the whole run if it holds along the run of the
part. -/
theorem Along.comap {next' : Y → I → Y → Prop} {good' : Y → I → Prop} (f : X → Y)
    (hnext : ∀ x i x', next x i x' → next' (f x) i (f x')) {x : X} {is : List I}
    (h : Along next' good' (f x) is) : Along next (fun x i => good' (f x) i) x is := by
  induction is generalizing x with
  | nil => trivial
  | cons i is ih => exact ⟨h.1, fun x' hn => ih (h.2 _ (hnext x i x' hn))⟩

/-- Two requirements on every step are a requirement on every step. -/
theorem along_and {good' : X → I → Prop} {x : X} {is : List I} :
    Along next (fun x i => good x i ∧ good' x i) x is ↔
      Along next good x is ∧ Along next good' x is := by
  induction is generalizing x with
  | nil => exact (and_self_iff (a := True)).symm
  | cons i is ih =>
    rw [along_cons, along_cons, along_cons]
    constructor
    · rintro ⟨⟨h, h'⟩, hs⟩
      exact ⟨⟨h, fun x' hn => (ih.1 (hs x' hn)).1⟩, h', fun x' hn => (ih.1 (hs x' hn)).2⟩
    · rintro ⟨⟨h, hs⟩, h', hs'⟩
      exact ⟨⟨h, h'⟩, fun x' hn => ih.2 ⟨hs x' hn, hs' x' hn⟩⟩

/-- What is required of the inputs alone. -/
theorem along_of_forall_mem {P : I → Prop} {is : List I} (h : ∀ i ∈ is, P i) (x : X) :
    Along next (fun _ i => P i) x is := by
  induction is generalizing x with
  | nil => trivial
  | cons i is ih =>
    exact ⟨h i List.mem_cons_self, fun x' _ => ih (fun j hj => h j (List.mem_cons_of_mem i hj)) x'⟩

theorem along_of_forall (h : ∀ x i, good x i) (x : X) (is : List I) : Along next good x is := by
  induction is generalizing x with
  | nil => trivial
  | cons i is ih => exact ⟨h x i, fun x' _ => ih x'⟩

/-- What holds along a run of a system that computes its next state holds where the run gets to. -/
theorem Along.of_foldlM {ε : Type*} {f : X → I → Except ε X}
    (hnext : ∀ x i x', f x i = .ok x' → next x i x') {x x' : X} {is : List I} {i : I}
    (h : Along next good x (is ++ [i])) (hrun : is.foldlM f x = .ok x') : good x' i := by
  induction is generalizing x with
  | nil =>
    obtain rfl : x = x' := Except.ok.inj hrun
    exact h.1
  | cons j is ih =>
    rw [List.foldlM_cons] at hrun
    cases hj : f x j with
    | error e =>
      rw [hj] at hrun
      exact absurd hrun (by intro hf; cases hf)
    | ok y =>
      rw [hj] at hrun
      exact ih (h.2 y (hnext x j y hj)) hrun

/-- What every step keeps holds wherever a run gets to. -/
theorem inv_of_foldlM {ε : Type*} {f : X → I → Except ε X} (Inv : X → Prop)
    (hstep : ∀ x i x', Inv x → f x i = .ok x' → Inv x') {x x' : X} {is : List I} (hx : Inv x)
    (hrun : is.foldlM f x = .ok x') : Inv x' := by
  induction is generalizing x with
  | nil => exact (Except.ok.inj hrun : x = x') ▸ hx
  | cons i is ih =>
    rw [List.foldlM_cons] at hrun
    cases hi : f x i with
    | error e =>
      rw [hi] at hrun
      exact absurd hrun (by intro hf; cases hf)
    | ok y =>
      rw [hi] at hrun
      exact ih (hstep x i y hx hi) hrun

/-- The same for a property of the state and of the number of steps so far, while that number stays
below a bound. -/
theorem inv_of_foldlM_lt {ε : Type*} {f : X → I → Except ε X} (Inv : Nat → X → Prop) {bound : Nat}
    (hstep : ∀ n x i x', n + 1 < bound → Inv n x → f x i = .ok x' → Inv (n + 1) x') {n : Nat}
    {x x' : X} {is : List I} (hx : Inv n x) (hn : n + is.length < bound)
    (hrun : is.foldlM f x = .ok x') : Inv (n + is.length) x' := by
  induction is generalizing n x with
  | nil => exact (Except.ok.inj hrun : x = x') ▸ hx
  | cons i is ih =>
    rw [List.length_cons] at hn ⊢
    rw [List.foldlM_cons] at hrun
    cases hi : f x i with
    | error e =>
      rw [hi] at hrun
      exact absurd hrun (by intro hf; cases hf)
    | ok y =>
      rw [hi] at hrun
      have hy := ih (hstep n x i y (by omega) hx hi) (by omega) hrun
      rwa [Nat.add_right_comm] at hy

/-- The same for steps that meet a condition, in a run that meets it all along. -/
theorem Along.inv_of_foldlM {ε : Type*} {f : X → I → Except ε X} (Inv : X → Prop)
    (hnext : ∀ x i x', f x i = .ok x' → next x i x')
    (hstep : ∀ x i x', Inv x → cond x i → next x i x' → Inv x') {x x' : X} {is : List I}
    (hx : Inv x) (h : Along next cond x is) (hrun : is.foldlM f x = .ok x') : Inv x' := by
  induction is generalizing x with
  | nil => exact (Except.ok.inj hrun : x = x') ▸ hx
  | cons i is ih =>
    rw [List.foldlM_cons] at hrun
    cases hi : f x i with
    | error e =>
      rw [hi] at hrun
      exact absurd hrun (by intro hf; cases hf)
    | ok y =>
      rw [hi] at hrun
      have hy := hnext x i y hi
      exact ih (hstep x i y hx h.1 hy) (h.2 y hy) hrun

/-- What holds along a run of a system that computes its next state holds along the rest of it. -/
theorem Along.behind {ε : Type*} {f : X → I → Except ε X}
    (hnext : ∀ x i x', f x i = .ok x' → next x i x') {x x' : X} {is more : List I}
    (h : Along next good x (is ++ more)) (hrun : is.foldlM f x = .ok x') :
    Along next good x' more := by
  induction is generalizing x with
  | nil =>
    obtain rfl : x = x' := Except.ok.inj hrun
    exact h
  | cons i is ih =>
    rw [List.foldlM_cons] at hrun
    cases hi : f x i with
    | error e =>
      rw [hi] at hrun
      exact absurd hrun (by intro hf; cases hf)
    | ok y =>
      rw [hi] at hrun
      exact ih (h.2 y (hnext x i y hi)) hrun

/-- What holds along a run holds along its beginning. -/
theorem Along.take {x : X} {is : List I} (h : Along next good x is) (n : Nat) :
    Along next good x (is.take n) := by
  induction is generalizing x n with
  | nil => rwa [List.take_nil]
  | cons i is ih =>
    cases n with
    | zero => trivial
    | succ n => exact ⟨h.1, fun x' hn => ih (h.2 x' hn) n⟩

/-- A run on the images of other inputs. -/
theorem along_map {J : Type*} (g : J → I) {x : X} {js : List J} :
    Along next good x (js.map g) ↔
      Along (fun x j x' => next x (g j) x') (fun x j => good x (g j)) x js := by
  induction js generalizing x with
  | nil => exact Iff.rfl
  | cons j js ih =>
    rw [List.map_cons, along_cons, along_cons]
    exact and_congr_right fun _ => forall_congr' fun x' => imp_congr_right fun _ => ih

end Run
