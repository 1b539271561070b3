import Mathlib.Data.List.Cycle

/-!
# Circular doubly linked lists

A store of nodes with two link fields, seen only through the functions `next` and `prev` that read
the fields.  `IsRing next prev l` says that the nodes of `l` are distinct and that following
`next` from the first of them visits `l` in order and comes back, `prev` being the way back.

Which node a ring is entered at does not matter (`IsRing.rotate`), so the two edits a program
makes, appending a node in front of the entry and unlinking one, are proved at the most convenient
entry and rotated to the one that is wanted.  Both are stated with the fields before and after, and
ask that only the fields the edit writes have changed: how the store is represented plays no role.
-/

set_option autoImplicit false

namespace Ring

variable {α : Type*} {next prev next' prev' : α → Option α} {a x z : α} {l s t : List α}

/-- `b` follows `a`: the forward link of `a` and the backward link of `b` agree. -/
def Linked (next prev : α → Option α) (a b : α) : Prop := next a = some b ∧ prev b = some a

/-- The nodes of `l` form a ring, in this order. -/
structure IsRing (next prev : α → Option α) (l : List α) : Prop where
  /-- No node occurs twice. -/
  nodup : l.Nodup
  /-- Neighbours are linked, the last node with the first included. -/
  chain : Cycle.Chain (Linked next prev) (l : Cycle α)

/-! ## Opening a ring -/

/-- A ring is a path whose last node is linked to its first. -/
theorem isRing_cons_iff : IsRing next prev (a :: t) ↔ (a :: t).Nodup ∧
    (a :: t).IsChain (Linked next prev) ∧
      Linked next prev ((a :: t).getLast (List.cons_ne_nil a t)) a := by
  have hchain : Cycle.Chain (Linked next prev) ((a :: t : List α) : Cycle α) ↔
      (a :: t).IsChain (Linked next prev) ∧
        Linked next prev ((a :: t).getLast (List.cons_ne_nil a t)) a := by
    rw [Cycle.chain_coe_cons, ← List.cons_append, List.isChain_append,
      List.getLast?_eq_some_getLast (List.cons_ne_nil a t)]
    simp
  exact ⟨fun h => ⟨h.nodup, hchain.1 h.chain⟩, fun h => ⟨h.1, hchain.2 h.2⟩⟩

theorem isRing_singleton : IsRing next prev [a] ↔ next a = some a ∧ prev a = some a := by
  rw [isRing_cons_iff]
  simp [Linked]

/-- A ring may be entered anywhere. -/
theorem IsRing.rotate (h : IsRing next prev (s ++ t)) : IsRing next prev (t ++ s) := by
  refine ⟨(List.perm_append_comm.nodup_iff).1 h.nodup, ?_⟩
  have hrot : ((s ++ t : List α) : Cycle α) = (t ++ s : List α) :=
    Cycle.coe_eq_coe.2 List.isRotated_append
  exact hrot ▸ h.chain

/-- A ring depends only on the links of its own nodes. -/
theorem IsRing.congr (h : IsRing next prev l) (hn : ∀ y ∈ l, next' y = next y)
    (hp : ∀ y ∈ l, prev' y = prev y) : IsRing next' prev' l := by
  cases l with
  | nil => exact ⟨List.nodup_nil, Cycle.Chain.nil _⟩
  | cons a t =>
    obtain ⟨hnd, hc, hl⟩ := isRing_cons_iff.1 h
    have hlast := List.getLast_mem (List.cons_ne_nil a t)
    refine isRing_cons_iff.2 ⟨hnd, hc.imp_of_mem_imp fun b c hb hc hbc => ?_, ?_⟩
    · exact ⟨(hn b hb).trans hbc.1, (hp c hc).trans hbc.2⟩
    · exact ⟨(hn _ hlast).trans hl.1, (hp a List.mem_cons_self).trans hl.2⟩

/-- The entry's backward link leads to the last node. -/
theorem IsRing.prev_head (h : IsRing next prev (a :: t)) :
    prev a = some ((a :: t).getLast (List.cons_ne_nil a t)) :=
  (isRing_cons_iff.1 h).2.2.2

/-- The links of a node lead to nodes of the ring. -/
theorem IsRing.links_mem (h : IsRing next prev l) (hx : x ∈ l) :
    ∃ p ∈ l, ∃ n ∈ l, prev x = some p ∧ next x = some n := by
  obtain ⟨s, t, rfl⟩ := List.append_of_mem hx
  have hr : IsRing next prev (x :: (t ++ s)) := h.rotate
  have hmem : ∀ y ∈ x :: (t ++ s), y ∈ s ++ x :: t := by
    intro y; simp only [List.mem_cons, List.mem_append]; tauto
  obtain ⟨n, hn, hnx⟩ : ∃ n ∈ x :: (t ++ s), next x = some n := by
    obtain ⟨-, hc, hl⟩ := isRing_cons_iff.1 hr
    generalize t ++ s = u at hc hl
    cases u with
    | nil => exact ⟨x, List.mem_singleton.2 rfl, hl.1⟩
    | cons y u => exact ⟨y, by simp, (List.isChain_cons_cons.1 hc).1.1⟩
  exact ⟨_, hmem _ (List.getLast_mem (List.cons_ne_nil x (t ++ s))), n, hmem n hn, hr.prev_head,
    hnx⟩

/-- The next node is in the ring. -/
theorem IsRing.mem_of_next {n : α} (h : IsRing next prev l) (hx : x ∈ l) (hn : next x = some n) :
    n ∈ l := by
  obtain ⟨-, -, m, hm, -, hnext⟩ := h.links_mem hx
  exact Option.some_inj.1 (hnext.symm.trans hn) ▸ hm

/-- So is the node before. -/
theorem IsRing.mem_of_prev {p : α} (h : IsRing next prev l) (hx : x ∈ l) (hp : prev x = some p) :
    p ∈ l := by
  obtain ⟨q, hq, -, -, hprev, -⟩ := h.links_mem hx
  exact Option.some_inj.1 (hprev.symm.trans hp) ▸ hq

/-- The way back from the next node. -/
theorem IsRing.prev_of_next {n : α} (h : IsRing next prev l) (hx : x ∈ l) (hn : next x = some n) :
    prev n = some x := by
  obtain ⟨s, t, rfl⟩ := List.append_of_mem hx
  have hr : IsRing next prev (x :: (t ++ s)) := h.rotate
  obtain ⟨-, hc, hl⟩ := isRing_cons_iff.1 hr
  generalize t ++ s = u at hc hl
  have hlinked : ∃ y, Linked next prev x y := by
    cases u with
    | nil => exact ⟨x, hl⟩
    | cons y u => exact ⟨y, (List.isChain_cons_cons.1 hc).1⟩
  obtain ⟨y, hy⟩ := hlinked
  obtain rfl : y = n := Option.some_inj.1 (hy.1.symm.trans hn)
  exact hy.2

/-- The way on from the node before. -/
theorem IsRing.next_of_prev {p : α} (h : IsRing next prev l) (hx : x ∈ l) (hp : prev x = some p) :
    next p = some x := by
  obtain ⟨s, t, rfl⟩ := List.append_of_mem hx
  have hr : IsRing next prev (x :: (t ++ s)) := h.rotate
  have hlast := (isRing_cons_iff.1 hr).2.2
  rw [← Option.some_inj.1 (hlast.2.symm.trans hp)]
  exact hlast.1

/-- Following the forward links from the entry visits the ring and nothing else. -/
theorem IsRing.reaches_iff (h : IsRing next prev (a :: t)) :
    Relation.ReflTransGen (fun y z => next y = some z) a x ↔ x ∈ a :: t := by
  constructor
  · intro hx
    induction hx with
    | refl => exact List.mem_cons_self
    | tail _ hyz ih => exact h.mem_of_next ih hyz
  · intro hx
    have hc := (isRing_cons_iff.1 h).2.1
    clear h
    induction t generalizing a with
    | nil => rw [List.mem_singleton.1 hx]
    | cons b t ih =>
      rcases List.mem_cons.1 hx with rfl | hx
      · exact Relation.ReflTransGen.refl
      · obtain ⟨hab, hc⟩ := List.isChain_cons_cons.1 hc
        exact Relation.ReflTransGen.head hab.1 (ih hx hc)

/-- Two paths along the forward links that end before `a` and do not pass it are the same. -/
theorem path_unique (hs : (x :: s).IsChain (Linked next prev))
    (ht : (x :: t).IsChain (Linked next prev))
    (hsl : next ((x :: s).getLast (List.cons_ne_nil x s)) = some a)
    (htl : next ((x :: t).getLast (List.cons_ne_nil x t)) = some a) (has : a ∉ s) (hat : a ∉ t) :
    s = t := by
  induction s generalizing x t with
  | nil =>
    cases t with
    | nil => rfl
    | cons y t =>
      obtain rfl := Option.some_inj.1 (hsl.symm.trans (List.isChain_cons_cons.1 ht).1.1)
      exact absurd List.mem_cons_self hat
  | cons y s ih =>
    obtain ⟨hxy, hs⟩ := List.isChain_cons_cons.1 hs
    cases t with
    | nil =>
      obtain rfl := Option.some_inj.1 (htl.symm.trans hxy.1)
      exact absurd List.mem_cons_self has
    | cons z t =>
      obtain ⟨hxz, ht⟩ := List.isChain_cons_cons.1 ht
      obtain rfl := Option.some_inj.1 (hxy.1.symm.trans hxz.1)
      rw [List.getLast_cons (List.cons_ne_nil y s)] at hsl
      rw [List.getLast_cons (List.cons_ne_nil y t)] at htl
      rw [ih hs ht hsl htl (fun h => has (List.mem_cons_of_mem y h))
        fun h => hat (List.mem_cons_of_mem y h)]

/-- The links determine the ring that is entered at a node. -/
theorem IsRing.unique (h : IsRing next prev (a :: s)) (h' : IsRing next prev (a :: t)) :
    s = t := by
  obtain ⟨hnd, hc, hl⟩ := isRing_cons_iff.1 h
  obtain ⟨hnd', hc', hl'⟩ := isRing_cons_iff.1 h'
  exact path_unique hc hc' hl.1 hl'.1 (List.nodup_cons.1 hnd).1 (List.nodup_cons.1 hnd').1

/-- A node whose backward link is itself is alone. -/
theorem IsRing.eq_singleton (h : IsRing next prev l) (hx : x ∈ l) (hp : prev x = some x) :
    l = [x] := by
  obtain ⟨s, t, rfl⟩ := List.append_of_mem hx
  have hr : IsRing next prev (x :: (t ++ s)) := h.rotate
  have hlast := hr.prev_head
  rw [hp, Option.some_inj] at hlast
  have hnil : t ++ s = [] := by
    by_contra hne
    rw [List.getLast_cons hne] at hlast
    exact (List.nodup_cons.1 hr.nodup).1 (hlast ▸ List.getLast_mem hne)
  obtain ⟨rfl, rfl⟩ := List.append_eq_nil_iff.1 hnil
  rfl

/-- A node whose forward link is itself is alone, too. -/
theorem IsRing.eq_singleton_of_next (h : IsRing next prev l) (hx : x ∈ l)
    (hn : next x = some x) : l = [x] :=
  h.eq_singleton hx (h.prev_of_next hx hn)

/-- An edit at the two ends of a path leaves its inner links alone: the last node is nobody's
predecessor in it and the first nobody's successor. -/
theorem path_congr (hnd : (a :: t).Nodup) (hc : (a :: t).IsChain (Linked next prev))
    (hlast : (a :: t).getLast (List.cons_ne_nil a t) = z)
    (hn : ∀ y ∈ a :: t, y ≠ z → next' y = next y)
    (hp : ∀ y ∈ a :: t, y ≠ a → prev' y = prev y) : (a :: t).IsChain (Linked next' prev') := by
  rw [List.isChain_iff_forall_rel_of_append_cons_cons] at hc ⊢
  intro b c l₁ l₂ heq
  have hbc := hc heq
  have hb : b ≠ z := by
    rintro rfl
    have hmem := List.getLast_mem (List.cons_ne_nil c l₂)
    rw [show (c :: l₂).getLast (List.cons_ne_nil c l₂) = b by rw [← hlast]; simp [heq]] at hmem
    rw [heq] at hnd
    exact (List.nodup_cons.1 (List.nodup_append.1 hnd).2.1).1 hmem
  have hca : c ≠ a := by
    rintro rfl
    cases l₁ with
    | nil => obtain ⟨rfl, rfl⟩ := List.cons.inj heq; simp at hnd
    | cons d l₁ => obtain ⟨rfl, rfl⟩ := List.cons.inj heq; simp at hnd
  exact ⟨(hn b (by simp [heq]) hb).trans hbc.1, (hp c (by simp [heq]) hca).trans hbc.2⟩

/-! ## Appending in front of the entry -/

/-- **Appending.**  A new node `x` goes between the last node `z` and the entry `a`. -/
theorem IsRing.concat (h : IsRing next prev (a :: t)) (hx : x ∉ a :: t) (hz : prev a = some z)
    (hnz : next' z = some x) (hpx : prev' x = some z) (hnx : next' x = some a)
    (hpa : prev' a = some x) (hn : ∀ y ∈ a :: t, y ≠ z → next' y = next y)
    (hp : ∀ y ∈ a :: t, y ≠ a → prev' y = prev y) : IsRing next' prev' (a :: (t ++ [x])) := by
  obtain ⟨hnd, hc, -⟩ := isRing_cons_iff.1 h
  have hlast : (a :: t).getLast (List.cons_ne_nil a t) = z :=
    Option.some_inj.1 (h.prev_head.symm.trans hz)
  refine isRing_cons_iff.2 ⟨?_, ?_, ?_⟩
  · rw [← List.cons_append]
    exact hnd.append (List.nodup_singleton x) (by simpa using hx)
  · rw [← List.cons_append, List.isChain_append,
      List.getLast?_eq_some_getLast (List.cons_ne_nil a t), hlast]
    refine ⟨path_congr hnd hc hlast hn hp, List.isChain_singleton x, ?_⟩
    simpa [Linked] using ⟨hnz, hpx⟩
  · simpa [Linked] using ⟨hnx, hpa⟩

/-! ## Unlinking -/

/-- Unlinking the entry of a ring with at least two nodes. -/
theorem IsRing.tail (h : IsRing next prev (x :: a :: t)) (hz : prev x = some z)
    (hnz : next' z = some a) (hpa : prev' a = some z)
    (hn : ∀ y ∈ a :: t, y ≠ z → next' y = next y)
    (hp : ∀ y ∈ a :: t, y ≠ a → prev' y = prev y) : IsRing next' prev' (a :: t) := by
  obtain ⟨hnd, hc, -⟩ := isRing_cons_iff.1 h
  have hnd' : (a :: t).Nodup := (List.nodup_cons.1 hnd).2
  have hlast : (a :: t).getLast (List.cons_ne_nil a t) = z := by
    have hx := h.prev_head
    rw [List.getLast_cons (List.cons_ne_nil a t)] at hx
    exact Option.some_inj.1 (hx.symm.trans hz)
  refine isRing_cons_iff.2 ⟨hnd', path_congr hnd' (List.isChain_cons_cons.1 hc).2 hlast hn hp, ?_⟩
  rw [hlast]
  exact ⟨hnz, hpa⟩

/-- The entry of a ring from which a node is taken out: the next node, if it was the entry. -/
theorem IsRing.head_erase [DecidableEq α] {c n : α} (h : IsRing next prev (a :: t))
    (hnx : next x = some n) (he : (a :: t).erase x = c :: s) : c = if a = x then n else a := by
  by_cases hax : a = x
  · subst hax
    rw [List.erase_cons_head] at he
    subst he
    have hac : next a = some c := (List.isChain_cons_cons.1 (isRing_cons_iff.1 h).2.1).1.1
    rw [if_pos rfl]
    exact Option.some_inj.1 (hac.symm.trans hnx)
  · rw [List.erase_cons_tail (by simpa using hax)] at he
    rw [if_neg hax]
    exact (List.cons.inj he).1.symm

/-- **Unlinking.**  The node `x` leaves the ring: its two neighbours, which may be one node, are
linked to each other. -/
theorem IsRing.erase [DecidableEq α] {p n : α} (h : IsRing next prev l) (hx : x ∈ l)
    (hpx : prev x = some p) (hnx : next x = some n) (hne : p ≠ x)
    (hnp : next' p = some n) (hpn : prev' n = some p)
    (hn : ∀ y ∈ l, y ≠ p → next' y = next y) (hp : ∀ y ∈ l, y ≠ n → prev' y = prev y) :
    IsRing next' prev' (l.erase x) := by
  obtain ⟨s, t, rfl⟩ := List.append_of_mem hx
  have hr : IsRing next prev (x :: (t ++ s)) := h.rotate
  have hxs : x ∉ s := fun hs => by
    have := (List.nodup_append.1 h.nodup).2.2 x hs x List.mem_cons_self
    exact this rfl
  have herase : (s ++ x :: t).erase x = s ++ t := by
    rw [List.erase_append_right _ hxs, List.erase_cons_head]
  have hmem : ∀ y ∈ t ++ s, y ∈ s ++ x :: t := by
    intro y; simp only [List.mem_cons, List.mem_append]; tauto
  rw [herase]
  refine IsRing.rotate ?_
  generalize hu : t ++ s = u at hr hmem
  cases u with
  | nil =>
    have := hr.prev_head
    rw [hpx, Option.some_inj] at this
    exact absurd this hne
  | cons a u =>
    have hna : n = a := by
      have := (List.isChain_cons_cons.1 (isRing_cons_iff.1 hr).2.1).1.1
      exact Option.some_inj.1 (hnx.symm.trans this)
    subst hna
    exact hr.tail hpx hnp hpn (fun y hy => hn y (hmem y hy)) fun y hy => hp y (hmem y hy)

end Ring
