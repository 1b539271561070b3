import Mathlib.Order.Defs.Unbundled
import Mathlib.Data.List.Pairwise

/-!
# Maps in the order of their keys

An `OrderedMap` is the list of its entries in ascending order of the keys, which is a field of the
structure: iterating is reading the list, and a key is there once (`eq_singleton_of_keys` is the
form in which that is used most: entries that share a key are one entry).
-/

set_option autoImplicit false

/-- Entries in ascending order of their keys. -/
structure OrderedMap (K V : Type*) [LT K] where
  entries : List (K × V)
  sorted : entries.Pairwise fun a b => a.1 < b.1

namespace OrderedMap

variable {K V : Type*} [LT K]

@[ext] theorem ext {m n : OrderedMap K V} (h : m.entries = n.entries) : m = n := by
  cases m
  cases n
  congr

/-- The map without entries. -/
def empty : OrderedMap K V := ⟨[], List.Pairwise.nil⟩

instance : EmptyCollection (OrderedMap K V) := ⟨empty⟩

@[simp] theorem entries_empty : (∅ : OrderedMap K V).entries = [] := rfl

section Insert

variable [DecidableLT K]

/-- The entry of a key in an ordered list, new or in place of the old one. -/
def insertEntry (k : K) (v : V) : List (K × V) → List (K × V)
  | [] => [(k, v)]
  | e :: rest =>
    if k < e.1 then (k, v) :: e :: rest
    else if e.1 < k then e :: insertEntry k v rest
    else (k, v) :: rest

theorem mem_insertEntry {k : K} {v : V} {l : List (K × V)} {e : K × V}
    (h : e ∈ insertEntry k v l) : e = (k, v) ∨ e ∈ l := by
  induction l with
  | nil => exact Or.inl (List.mem_singleton.1 h)
  | cons a l ih =>
    rw [insertEntry] at h
    split at h
    · exact List.mem_cons.1 h
    · split at h
      · rcases List.mem_cons.1 h with rfl | h
        · exact Or.inr List.mem_cons_self
        · exact (ih h).imp id (List.mem_cons_of_mem a)
      · exact (List.mem_cons.1 h).imp id (List.mem_cons_of_mem a)

variable [IsStrictTotalOrder K (· < ·)]

theorem pairwise_insertEntry {k : K} {v : V} {l : List (K × V)}
    (h : l.Pairwise fun a b => a.1 < b.1) :
    (insertEntry k v l).Pairwise fun a b => a.1 < b.1 := by
  induction l with
  | nil => exact List.pairwise_singleton _ _
  | cons a l ih =>
    obtain ⟨ha, hl⟩ := List.pairwise_cons.1 h
    rw [insertEntry]
    split
    · next hka =>
      refine List.pairwise_cons.2 ⟨fun e he => ?_, h⟩
      rcases List.mem_cons.1 he with rfl | he
      · exact hka
      · exact trans_of (· < ·) hka (ha e he)
    · next hka =>
      split
      · next hak =>
        refine List.pairwise_cons.2 ⟨fun e he => ?_, ih hl⟩
        rcases mem_insertEntry he with rfl | he
        · exact hak
        · exact ha e he
      · next hak =>
        have hk : k = a.1 := Std.Trichotomous.trichotomous k a.1 hka hak
        exact List.pairwise_cons.2 ⟨fun e he => hk ▸ ha e he, hl⟩

/-- Setting the value of a key. -/
def insert (m : OrderedMap K V) (k : K) (v : V) : OrderedMap K V :=
  ⟨insertEntry k v m.entries, pairwise_insertEntry m.sorted⟩

end Insert

/-- Whether there is an entry with the key. -/
def contains [DecidableEq K] (m : OrderedMap K V) (k : K) : Bool :=
  m.entries.any fun e => e.1 = k

/-- Entries that share one key are one entry. -/
theorem eq_singleton_of_keys [Std.Irrefl (α := K) (· < ·)] (m : OrderedMap K V) {k : K} {e : K × V}
    {rest : List (K × V)} (h : m.entries = e :: rest) (hk : ∀ e ∈ m.entries, e.1 = k) :
    rest = [] := by
  rcases rest with _ | ⟨e', rest⟩
  · rfl
  · have hlt := (List.pairwise_cons.1 (h ▸ m.sorted)).1 e' List.mem_cons_self
    rw [hk e (h ▸ List.mem_cons_self),
      hk e' (h ▸ List.mem_cons_of_mem _ List.mem_cons_self)] at hlt
    exact absurd hlt (irrefl_of (· < ·) k)

end OrderedMap
