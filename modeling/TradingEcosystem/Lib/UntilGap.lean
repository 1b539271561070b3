import Mathlib.Data.List.Basic
import Mathlib.Data.List.Infix
import Mathlib.Logic.Function.Iterate

/-!
# Numbered streams

Whoever reads a stream of numbered values in order takes them as long as they count on from the
number it waits for.  `untilGap` is what it gets before the first value with another number.

What is read of a stream that lost, repeated and mixed up its values is the beginning of what was
sent (`untilGap_prefix_of_subset`): this takes only that no number was sent twice.
-/

set_option autoImplicit false

namespace UntilGap

variable {α κ : Type*} (number : α → κ) (succ : κ → κ)

/-- The number after the values of `l`, which count on from `n`. -/
def numberAfter (n : κ) (l : List α) : κ := succ^[l.length] n

theorem numberAfter_cons (n : κ) (a : α) (l : List α) :
    numberAfter succ n (a :: l) = numberAfter succ (succ n) l := rfl

variable [DecidableEq κ]

/-- The values that count on from `n`, up to the first that does not. -/
def untilGap : κ → List α → List α
  | _, [] => []
  | n, a :: l => if number a = n then a :: untilGap (succ n) l else []

variable {number succ} {n : κ} {a : α} {l l' stream : List α}

theorem untilGap_cons_of_eq (h : number a = n) :
    untilGap number succ n (a :: l) = a :: untilGap number succ (succ n) l := if_pos h

theorem untilGap_cons_of_ne (h : number a ≠ n) : untilGap number succ n (a :: l) = [] := if_neg h

/-- The stream has no gap. -/
theorem untilGap_cons_eq_self : untilGap number succ n (a :: l) = a :: l ↔
    number a = n ∧ untilGap number succ (succ n) l = l := by
  by_cases h : number a = n
  · rw [untilGap_cons_of_eq h, List.cons_inj_right]
    exact ⟨fun hl => ⟨h, hl⟩, And.right⟩
  · rw [untilGap_cons_of_ne h]
    exact iff_of_false (List.cons_ne_nil a l).symm fun hl => h hl.1

/-- Behind a stream without a gap it goes on with the next number. -/
theorem untilGap_append_of_eq (h : untilGap number succ n l = l) :
    untilGap number succ n (l ++ l') =
      l ++ untilGap number succ (numberAfter succ n l) l' := by
  induction l generalizing n with
  | nil => rfl
  | cons a l ih =>
    obtain ⟨ha, hl⟩ := untilGap_cons_eq_self.1 h
    rw [List.cons_append, untilGap_cons_of_eq ha, ih hl, numberAfter_cons, List.cons_append]

/-- Behind a gap nothing is taken. -/
theorem untilGap_append_of_ne (h : untilGap number succ n l ≠ l) :
    untilGap number succ n (l ++ l') = untilGap number succ n l := by
  induction l generalizing n with
  | nil => exact absurd rfl h
  | cons a l ih =>
    rw [List.cons_append]
    by_cases ha : number a = n
    · rw [untilGap_cons_of_eq ha, untilGap_cons_of_eq ha,
        ih fun hl => h (untilGap_cons_eq_self.2 ⟨ha, hl⟩)]
    · rw [untilGap_cons_of_ne ha, untilGap_cons_of_ne ha]

/-- Whether there is a gap is decided by the first part, or else by the second. -/
theorem untilGap_append_eq_self : untilGap number succ n (l ++ l') = l ++ l' ↔
    untilGap number succ n l = l ∧
      untilGap number succ (numberAfter succ n l) l' = l' := by
  induction l generalizing n with
  | nil => exact ⟨fun h => ⟨rfl, h⟩, And.right⟩
  | cons a l ih =>
    rw [List.cons_append, untilGap_cons_eq_self, untilGap_cons_eq_self, ih, numberAfter_cons,
      and_assoc]

theorem untilGap_eq_nil (h : ∀ a ∈ l, number a ≠ n) : untilGap number succ n l = [] := by
  cases l with
  | nil => rfl
  | cons a l => exact untilGap_cons_of_ne (h a List.mem_cons_self)

/-- **An unreliable network**: if `l` is made of values of a stream in which no number comes twice,
what counts on in `l` is the beginning of what counts on in the stream. -/
theorem untilGap_prefix_of_subset {rest : List α}
    (hinj : ∀ a ∈ stream, ∀ b ∈ stream, number a = number b → a = b) (hl : l ⊆ stream)
    (hsub : rest ⊆ stream) (hrest : untilGap number succ n rest = rest)
    (hlast : ∀ a ∈ stream, number a ≠ numberAfter succ n rest) :
    untilGap number succ n l <+: rest := by
  induction l generalizing n rest with
  | nil => exact List.nil_prefix
  | cons a l ih =>
    by_cases ha : number a = n
    · have hmem : a ∈ stream := hl List.mem_cons_self
      cases rest with
      | nil => exact absurd ha (hlast a hmem)
      | cons b rest =>
        obtain ⟨hb, htail⟩ := untilGap_cons_eq_self.1 hrest
        obtain rfl : a = b := hinj a hmem b (hsub List.mem_cons_self) (ha.trans hb.symm)
        rw [untilGap_cons_of_eq ha]
        refine (List.prefix_cons_inj a).2 (ih ?_ ?_ htail hlast)
        · exact fun c hc => hl (List.mem_cons_of_mem a hc)
        · exact fun c hc => hsub (List.mem_cons_of_mem a hc)
    · rw [untilGap_cons_of_ne ha]
      exact List.nil_prefix

end UntilGap
