import Mathlib.Data.List.Sort

/-!
# Queues with a rank and an arrival order

A queue in which an element of lower rank is served first and elements of equal rank in the order
they arrived.  It is a list with its best element in front; an arrival goes behind everything that
is at least as good (`enqueue`), which is where the order of arrival is kept.

`filter_enqueue` is what a store that keeps the queue in pieces needs: on a part of the queue that
holds nothing worse than the arrival, the arrival is last.
-/

set_option autoImplicit false

namespace PriceTime

variable {α P : Type*} [LinearOrder P] {rank : α → P} {x : α} {l : List α}

/-- Nothing waits behind something worse. -/
def Ranked (rank : α → P) (l : List α) : Prop := l.Pairwise fun a b => rank a ≤ rank b

/-- A new element goes behind everything that is at least as good. -/
def enqueue (rank : α → P) (x : α) (l : List α) : List α :=
  l.orderedInsert (fun a b => rank a < rank b) x

@[simp] theorem ranked_nil : Ranked rank [] := List.Pairwise.nil

@[simp] theorem mem_enqueue {y : α} : y ∈ enqueue rank x l ↔ y = x ∨ y ∈ l :=
  List.mem_orderedInsert _

theorem ranked_enqueue (h : Ranked rank l) : Ranked rank (enqueue rank x l) := by
  induction l with
  | nil => exact List.pairwise_singleton _ x
  | cons a l ih =>
    obtain ⟨ha, hl⟩ := List.pairwise_cons.1 h
    rw [enqueue, List.orderedInsert_cons]
    split
    · next hxa =>
      refine List.pairwise_cons.2 ⟨fun y hy => ?_, h⟩
      rcases List.mem_cons.1 hy with rfl | hy
      · exact hxa.le
      · exact hxa.le.trans (ha y hy)
    · next hxa =>
      refine List.pairwise_cons.2 ⟨fun y hy => ?_, ih hl⟩
      rcases mem_enqueue.1 hy with rfl | hy
      · exact not_lt.1 hxa
      · exact ha y hy

/-- The best element is in front. -/
theorem Ranked.head_le {a y : α} (h : Ranked rank (a :: l)) (hy : y ∈ a :: l) :
    rank a ≤ rank y := by
  rcases List.mem_cons.1 hy with rfl | hy
  · exact le_refl _
  · exact (List.pairwise_cons.1 h).1 y hy

theorem Ranked.filter (h : Ranked rank l) (p : α → Bool) : Ranked rank (l.filter p) :=
  List.Pairwise.filter p h

/-- An arrival outside a part of the queue leaves that part alone. -/
theorem filter_enqueue_of_not {p : α → Bool} (hp : ¬ p x) :
    (enqueue rank x l).filter p = l.filter p := by
  induction l with
  | nil => simp [enqueue, hp]
  | cons a l ih =>
    rw [enqueue, List.orderedInsert_cons]
    split
    · rw [List.filter_cons_of_neg hp]
    · rw [List.filter_cons, List.filter_cons, ← ih, enqueue]

/-- An arrival is last in a part of the queue that holds nothing worse. -/
theorem filter_enqueue {p : α → Bool} (h : Ranked rank l) (hp : p x)
    (hle : ∀ y ∈ l, p y → rank y ≤ rank x) :
    (enqueue rank x l).filter p = l.filter p ++ [x] := by
  induction l with
  | nil => simp [enqueue, hp]
  | cons a l ih =>
    rw [enqueue, List.orderedInsert_cons]
    split
    · next hxa =>
      -- everything from `a` on is worse than `x`, so none of it is in the part
      have hnone : (a :: l).filter p = [] := by
        rw [List.filter_eq_nil_iff]
        intro y hy hpy
        exact absurd (hxa.trans_le (h.head_le hy)) (not_lt.2 (hle y hy hpy))
      rw [List.filter_cons_of_pos hp, hnone, List.nil_append]
    · have htail := ih (List.pairwise_cons.1 h).2 fun y hy => hle y (List.mem_cons_of_mem a hy)
      rw [enqueue] at htail
      rw [List.filter_cons, List.filter_cons, htail]
      split <;> simp

end PriceTime
