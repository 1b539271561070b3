import Mathlib.Data.List.Sort
import Mathlib.Data.List.Perm.Basic

/-!
# Sorting functions and ties

A sorting function by a key promises a permutation in the order of the key and nothing about
elements with one key (`Sorts`).  A stable sorting of a list also keeps those in the order they had
(`StableSorting`); there is exactly one, and merge sort computes it.

The point of the module is the gap between the two.  On a list without ties between different
elements every sorting function is as good as a stable one (`Sorts.stable`), and on any other list
some sorting function is not (`exists_sorts_not_stable`).
-/

set_option autoImplicit false

namespace StableSort

variable {α τ : Type*} [LinearOrder τ] {key : α → τ} {l l₁ l₂ : List α}

/-- The list is in the order of the key. -/
def Ordered (key : α → τ) (l : List α) : Prop := l.Pairwise fun a b => key a ≤ key b

/-- What a sorting function by a key promises. -/
structure Sorts (key : α → τ) (sort : List α → List α) : Prop where
  perm : ∀ l, (sort l).Perm l
  ordered : ∀ l, Ordered key (sort l)

/-- `l₂` is `l₁` in the order of the key, and for every key in the order of `l₁`. -/
structure StableSorting (key : α → τ) (l₁ l₂ : List α) : Prop where
  perm : l₂.Perm l₁
  ordered : Ordered key l₂
  ties : ∀ t, l₂.filter (fun a => key a = t) = l₁.filter fun a => key a = t

/-- Two different elements of the list have one key. -/
def Ties (key : α → τ) (l : List α) : Prop := ∃ a ∈ l, ∃ b ∈ l, key a = key b ∧ a ≠ b

/-! ## The stable sorting -/

/-- A list in order is determined by its elements of each key. -/
theorem eq_of_filters (h₁ : Ordered key l₁) (h₂ : Ordered key l₂)
    (h : ∀ t, l₁.filter (fun a => key a = t) = l₂.filter fun a => key a = t) : l₁ = l₂ := by
  have hmem : ∀ a, a ∈ l₁ ↔ a ∈ l₂ := by
    intro a
    have ha := congrArg (a ∈ ·) (h (key a))
    simpa using ha
  induction l₁ generalizing l₂ with
  | nil =>
    cases l₂ with
    | nil => rfl
    | cons b l₂ => exact absurd ((hmem b).2 List.mem_cons_self) (by simp)
  | cons a l₁ ih =>
    cases l₂ with
    | nil => exact absurd ((hmem a).1 List.mem_cons_self) (by simp)
    | cons b l₂ =>
      have hab : key a ≤ key b := by
        rcases List.mem_cons.1 ((hmem b).2 List.mem_cons_self) with rfl | hb
        · exact le_refl _
        · exact (List.pairwise_cons.1 h₁).1 b hb
      have hba : key b ≤ key a := by
        rcases List.mem_cons.1 ((hmem a).1 List.mem_cons_self) with rfl | ha
        · exact le_refl _
        · exact (List.pairwise_cons.1 h₂).1 a ha
      have hkey : key b = key a := le_antisymm hba hab
      -- both heads are the first element of the lowest key
      have hhead := h (key a)
      rw [List.filter_cons_of_pos (by simp), List.filter_cons_of_pos (by simp [hkey])] at hhead
      obtain rfl := (List.cons.inj hhead).1
      have htail : ∀ t, l₁.filter (fun c => key c = t) = l₂.filter fun c => key c = t := by
        intro t
        have ht := h t
        rw [List.filter_cons, List.filter_cons] at ht
        split at ht
        · exact (List.cons.inj ht).2
        · exact ht
      rw [ih (List.pairwise_cons.1 h₁).2 (List.pairwise_cons.1 h₂).2 htail ?_]
      intro c
      have hc := congrArg (c ∈ ·) (htail (key c))
      simpa using hc

/-- There is one stable sorting. -/
theorem StableSorting.unique {m₁ m₂ : List α} (h₁ : StableSorting key l m₁)
    (h₂ : StableSorting key l m₂) : m₁ = m₂ :=
  eq_of_filters h₁.ordered h₂.ordered fun t => (h₁.ties t).trans (h₂.ties t).symm

/-- Merge sort by the key. -/
def stableSort (key : α → τ) (l : List α) : List α :=
  l.mergeSort fun a b => decide (key a ≤ key b)

theorem sorts_stableSort : Sorts key (stableSort key) where
  perm := fun l => List.mergeSort_perm l _
  ordered := fun l => by
    refine (List.pairwise_mergeSort ?_ ?_ l).imp of_decide_eq_true
    · intro a b c hab hbc
      exact decide_eq_true ((of_decide_eq_true hab).trans (of_decide_eq_true hbc))
    · intro a b
      simpa using le_total (key a) (key b)

/-- A part of the list that is in order already stays in its order. -/
theorem sublist_stableSort {c : List α} (hc : Ordered key c) (hl : c.Sublist l) :
    c.Sublist (stableSort key l) := by
  refine List.sublist_mergeSort ?_ ?_ (hc.imp decide_eq_true) hl
  · intro a b c hab hbc
    exact decide_eq_true ((of_decide_eq_true hab).trans (of_decide_eq_true hbc))
  · intro a b
    simpa using le_total (key a) (key b)

/-- What a test selects is in order already, so sorting leaves it as it was. -/
theorem filter_stableSort {p : α → Bool} (hp : Ordered key (l.filter p)) :
    (stableSort key l).filter p = l.filter p := by
  have hsub := (sublist_stableSort hp List.filter_sublist).filter p
  rw [List.filter_filter] at hsub
  simp only [Bool.and_self] at hsub
  refine (hsub.eq_of_length ?_).symm
  exact ((sorts_stableSort.perm l).filter p).length_eq.symm

theorem stableSorting_stableSort : StableSorting key l (stableSort key l) where
  perm := sorts_stableSort.perm l
  ordered := sorts_stableSort.ordered l
  ties := fun t => by
    refine filter_stableSort (List.pairwise_iff_forall_sublist.2 fun {a b} hab => ?_)
    have hmem : ∀ c ∈ [a, b], key c = t := fun c hc => by
      simpa using (List.mem_filter.1 (hab.subset hc)).2
    rw [hmem a (by simp), hmem b (by simp)]

/-- A stable sorting keeps the order of any selection that is in order already. -/
theorem StableSorting.filter_eq (h : StableSorting key l₁ l₂) {p : α → Bool}
    (hp : Ordered key (l₁.filter p)) : l₂.filter p = l₁.filter p := by
  rw [h.unique stableSorting_stableSort]
  exact filter_stableSort hp

/-- Two orderings of one list in which the elements without their keys are the same. -/
theorem eq_of_map_eq {β : Type*} {val : α → β} (h₁ : Ordered key l₁) (h₂ : Ordered key l₂)
    (hp : l₁.Perm l₂) (hinj : ∀ a b, key a = key b → val a = val b → a = b)
    (hval : l₁.map val = l₂.map val) : l₁ = l₂ := by
  have hkeys : l₁.map key = l₂.map key := by
    refine List.Perm.eq_of_pairwise (fun a b _ _ hab hba => le_antisymm hab hba) ?_ ?_ (hp.map key)
    · exact List.pairwise_map.2 h₁
    · exact List.pairwise_map.2 h₂
  clear h₁ h₂ hp
  induction l₁ generalizing l₂ with
  | nil => exact (List.map_eq_nil_iff.1 hval.symm).symm
  | cons a l₁ ih =>
    cases l₂ with
    | nil => exact absurd hval (by simp)
    | cons b l₂ =>
      rw [List.map_cons, List.map_cons, List.cons_eq_cons] at hval hkeys
      rw [hinj a b hkeys.1 hval.1, ih hval.2 hkeys.2]

/-! ## Any sorting function -/

/-- **Without ties every sorting function is stable.** -/
theorem Sorts.stable {sort : List α → List α} (h : Sorts key sort) (hl : ¬ Ties key l) :
    StableSorting key l (sort l) where
  perm := h.perm l
  ordered := h.ordered l
  ties := fun t => by
    have hperm : ((sort l).filter fun a => key a = t).Perm (l.filter fun a => key a = t) :=
      (h.perm l).filter _
    have hmem : ∀ a ∈ l.filter (fun a => key a = t), a ∈ l ∧ key a = t := fun a ha => by
      simpa using List.mem_filter.1 ha
    -- the elements of one key are all the same one
    refine List.Perm.eq_of_pairwise (fun a b ha hb _ _ => ?_)
      (List.pairwise_of_forall fun a b => (trivial : (fun _ _ => True) a b))
      (List.pairwise_of_forall fun _ _ => trivial) hperm
    obtain ⟨hal, hat⟩ := hmem a (hperm.subset ha)
    obtain ⟨hbl, hbt⟩ := hmem b hb
    by_contra hne
    exact hl ⟨a, hal, b, hbl, hat.trans hbt.symm, hne⟩

/-- **With a tie some sorting function is not stable**: the one that treats the list as if the tie
had come in another order. -/
theorem exists_sorts_not_stable [DecidableEq α] (hl : Ties key l) :
    ∃ sort, Sorts key sort ∧ ¬ StableSorting key l (sort l) := by
  obtain ⟨a, ha, b, hb, hkey, hne⟩ := hl
  set f := l.filter fun c => key c = key a with hf
  have hfa : a ∈ f := List.mem_filter.2 ⟨ha, by simp⟩
  have hfb : b ∈ f := List.mem_filter.2 ⟨hb, by simp [hkey]⟩
  obtain ⟨g, hgf, hgne⟩ : ∃ g, g.Perm f ∧ g ≠ f := by
    by_cases hhead : f.head? = some a
    · refine ⟨b :: f.erase b, (List.perm_cons_erase hfb).symm, fun he => hne ?_⟩
      rw [← he, List.head?_cons, Option.some_inj] at hhead
      exact hhead.symm
    · refine ⟨a :: f.erase a, (List.perm_cons_erase hfa).symm, fun he => hhead ?_⟩
      rw [← he, List.head?_cons]
  have hmem : ∀ c ∈ g, key c = key a := fun c hc => by
    simpa using (List.mem_filter.1 (hgf.subset hc)).2
  set l' := g ++ l.filter fun c => ¬ key c = key a with hl'
  have hperm : l'.Perm l := by
    refine (hgf.append_right _).trans ?_
    rw [hf]
    simpa using List.filter_append_perm (fun c => decide (key c = key a)) l
  refine ⟨fun m => stableSort key (if m = l then l' else m), ⟨fun m => ?_, fun m => ?_⟩, ?_⟩
  · by_cases hm : m = l
    · rw [if_pos hm, hm]
      exact (sorts_stableSort.perm l').trans hperm
    · rw [if_neg hm]
      exact sorts_stableSort.perm m
  · exact sorts_stableSort.ordered _
  · intro hstable
    simp only [if_true] at hstable
    refine hgne ?_
    have hties := (stableSorting_stableSort : StableSorting key l' _).ties (key a)
    rw [hstable.ties (key a), hl', List.filter_append, List.filter_eq_self.2
      (fun c hc => decide_eq_true (hmem c hc)), List.filter_filter] at hties
    have hnone : (l.filter fun c => decide (key c = key a) && decide (¬ key c = key a)) = [] :=
      List.filter_eq_nil_iff.2 fun c _ => by simp
    rw [hnone, List.append_nil] at hties
    exact hties.symm

end StableSort
