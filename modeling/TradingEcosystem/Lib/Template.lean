import Mathlib.Data.List.Chain

/-!
# Templates

Texts with holes in them, written with one symbol for a hole, which is doubled where it stands for
itself.  `parse` reads a text from the left and `unparse` writes one.

* `unparse_parse`: every text is read as something that is written like it, so that no two texts
  are read alike.
* `parse_unparse_iff`: what is written is read back exactly when no hole stands directly before
  another one or before the symbol.
* `render` puts values into the holes.
-/

set_option autoImplicit false

namespace Template

variable {α β γ δ : Type*}

/-- A symbol that stands for itself, or a hole. -/
inductive Piece (α : Type*) where
  | lit (a : α)
  | hole
  deriving DecidableEq

/-- The number of holes. -/
def holes : List (Piece α) → Nat
  | [] => 0
  | .lit _ :: ps => holes ps
  | .hole :: ps => holes ps + 1

/-- The pieces with one value after the other in the holes.  Holes without a value stay empty, and
values without a hole are left out. -/
def render (lit : α → γ) (val : β → List γ) : List (Piece α) → List β → List γ
  | [], _ => []
  | .lit a :: ps, vs => lit a :: render lit val ps vs
  | .hole :: ps, v :: vs => val v ++ render lit val ps vs
  | .hole :: ps, [] => render lit val ps []

/-- What is rendered may be rendered further. -/
theorem flatMap_render (lit : α → γ) (val : β → List γ) (text : γ → List δ) (lit' : α → δ)
    (h : ∀ a, text (lit a) = [lit' a]) (ps : List (Piece α)) (vs : List β) :
    (render lit val ps vs).flatMap text =
      render lit' (fun v => (val v).flatMap text) ps vs := by
  induction ps generalizing vs with
  | nil => rfl
  | cons p ps ih =>
    cases p with
    | lit a =>
      rw [render, render, List.flatMap_cons, h, ih]
      rfl
    | hole =>
      cases vs with
      | nil => rw [render, render, ih]
      | cons v vs => rw [render, render, List.flatMap_append, ih]

variable [DecidableEq α]

/-- Reading a text from the left. -/
def parse (esc : α) : List α → List (Piece α)
  | [] => []
  | [a] => [if a = esc then .hole else .lit a]
  | a :: b :: s =>
    if a = esc then
      if b = esc then .lit esc :: parse esc s else .hole :: parse esc (b :: s)
    else .lit a :: parse esc (b :: s)

/-- How a piece is written. -/
def written (esc : α) : Piece α → List α
  | .lit a => if a = esc then [esc, esc] else [a]
  | .hole => [esc]

def unparse (esc : α) (ps : List (Piece α)) : List α := ps.flatMap (written esc)

/-- The piece begins with the symbol. -/
def Marked (esc : α) (p : Piece α) : Prop := p = .hole ∨ p = .lit esc

/-- **What can be written**: behind a hole comes no piece that begins with the symbol. -/
def Separated (esc : α) (ps : List (Piece α)) : Prop :=
  ps.IsChain fun p q => p = .hole → ¬ Marked esc q

variable {esc : α}

theorem parse_lit {a : α} (h : a ≠ esc) (s : List α) : parse esc (a :: s) = .lit a :: parse esc s := by
  cases s with
  | nil => rw [parse, parse, if_neg h]
  | cons b s => rw [parse, if_neg h]

theorem parse_escaped (esc : α) (s : List α) :
    parse esc (esc :: esc :: s) = .lit esc :: parse esc s := by
  rw [parse, if_pos rfl, if_pos rfl]

theorem parse_hole {s : List α} (h : s.head? ≠ some esc) :
    parse esc (esc :: s) = .hole :: parse esc s := by
  cases s with
  | nil => rw [parse, parse, if_pos rfl]
  | cons b s =>
    have hb : b ≠ esc := fun heq => h (congrArg some heq)
    rw [parse, if_pos rfl, if_neg hb]

/-- **Every text is written as it is read.** -/
theorem unparse_parse (esc : α) (s : List α) : unparse esc (parse esc s) = s := by
  induction s using parse.induct esc with
  | case1 => rfl
  | case2 a =>
    rw [parse, unparse, List.flatMap_singleton]
    split
    · next h => rw [h]; rfl
    · next h => rw [written, if_neg h]
  | case3 s ih =>
    rw [parse_escaped, unparse, List.flatMap_cons, written, if_pos rfl]
    exact congrArg ([esc, esc] ++ ·) ih
  | case4 b s hb ih =>
    rw [parse_hole (by simpa using hb), unparse, List.flatMap_cons]
    exact congrArg ([esc] ++ ·) ih
  | case5 a b s ha ih =>
    rw [parse_lit ha, unparse, List.flatMap_cons, written, if_neg ha]
    exact congrArg ([a] ++ ·) ih

theorem head?_unparse_eq (esc : α) (ps : List (Piece α)) :
    (unparse esc ps).head? = some esc ↔ ∃ p ∈ ps.head?, Marked esc p := by
  cases ps with
  | nil => simp [unparse]
  | cons p ps =>
    rw [unparse, List.flatMap_cons]
    cases p with
    | hole => simp [written, Marked]
    | lit a =>
      by_cases ha : a = esc
      · simp [written, Marked, ha]
      · simp [written, Marked, ha]

/-- The first piece of what is written is read back, if it may stand there. -/
theorem parse_unparse_cons {p : Piece α} {ps : List (Piece α)}
    (h : p = .hole → ∀ q ∈ ps.head?, ¬ Marked esc q) :
    parse esc (unparse esc (p :: ps)) = p :: parse esc (unparse esc ps) := by
  rw [unparse, List.flatMap_cons]
  cases p with
  | lit a =>
    rw [written]
    split
    · next ha =>
      subst ha
      exact parse_escaped a _
    · next ha => exact parse_lit ha _
  | hole =>
    refine parse_hole fun hhead => ?_
    obtain ⟨q, hq, hmarked⟩ := (head?_unparse_eq esc ps).1 hhead
    exact h rfl q hq hmarked

/-- A hole before the symbol is read as the symbol. -/
theorem parse_unparse_hole {ps : List (Piece α)} (h : ∃ q ∈ ps.head?, Marked esc q) :
    ∃ rest, parse esc (unparse esc (.hole :: ps)) = .lit esc :: rest := by
  have hhead := (head?_unparse_eq esc ps).2 h
  obtain ⟨s, hs⟩ : ∃ s, unparse esc ps = esc :: s := by
    cases hs : unparse esc ps with
    | nil => rw [hs] at hhead; exact absurd hhead (by simp)
    | cons b s => rw [hs] at hhead; exact ⟨s, by rw [Option.some.inj hhead]⟩
  refine ⟨parse esc s, ?_⟩
  have hwritten : unparse esc (.hole :: ps) = esc :: unparse esc ps := rfl
  rw [hwritten, hs, parse_escaped]

/-- **What is written is read back** exactly when it is separated. -/
theorem parse_unparse_iff (ps : List (Piece α)) :
    parse esc (unparse esc ps) = ps ↔ Separated esc ps := by
  induction ps with
  | nil => exact iff_of_true rfl List.isChain_nil
  | cons p ps ih =>
    rw [Separated, List.isChain_cons]
    by_cases h : p = .hole → ∀ q ∈ ps.head?, ¬ Marked esc q
    · rw [parse_unparse_cons h, List.cons.injEq, ih]
      exact ⟨fun hps => ⟨fun q hq hp => h hp q hq, hps.2⟩, fun hps => ⟨rfl, hps.2⟩⟩
    · refine iff_of_false (fun heq => ?_) fun hps => h fun hp q hq => hps.1 q hq hp
      obtain ⟨rfl, hmarked⟩ := Classical.not_imp.1 h
      have hfirst : ∃ q ∈ ps.head?, Marked esc q := by
        by_contra hno
        exact hmarked fun q hq hm => hno ⟨q, hq, hm⟩
      obtain ⟨rest, hrest⟩ := parse_unparse_hole hfirst
      rw [hrest] at heq
      exact absurd (List.cons.inj heq).1 (by simp)

/-! ## Texts without holes -/

omit [DecidableEq α] in
theorem separated_map_lit (esc : α) (s : List α) : Separated esc (s.map .lit) := by
  induction s with
  | nil => exact List.isChain_nil
  | cons a s ih => exact List.isChain_cons.2 ⟨fun _ _ h => absurd h (by simp), ih⟩

/-- A text is read back as itself with the symbol doubled. -/
theorem parse_unparse_map_lit (s : List α) : parse esc (unparse esc (s.map .lit)) = s.map .lit :=
  (parse_unparse_iff _).2 (separated_map_lit esc s)

omit [DecidableEq α] in
theorem holes_map_lit (s : List α) : holes (s.map .lit) = 0 := by
  induction s with
  | nil => rfl
  | cons a s ih => exact ih

omit [DecidableEq α] in
theorem render_map_lit (lit : α → γ) (val : β → List γ) (s : List α) (vs : List β) :
    render lit val (s.map .lit) vs = s.map lit := by
  induction s with
  | nil => rfl
  | cons a s ih => rw [List.map_cons, render, ih, List.map_cons]

end Template
