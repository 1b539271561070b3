import Mathlib.Logic.Function.Basic

/-!
# Runs of a family of components

A system that is one component a key, and every input goes to the component of its key.  The
components may stop with an error, and then the system stops.

* `run_route` says that a run of the system is a run of each component on the inputs of its own key,
  and that the outputs that bear a key are those of its component.
* `run_route_returns_iff` says that the system returns exactly when every component does.

So nothing a component does depends on the inputs of the others, nor on how they are interleaved.
-/

set_option autoImplicit false

namespace Routed

variable {K S I O ε : Type}

/-- One input, with the outputs so far. -/
def take (f : S → I → Except ε (S × List O)) (x : S × List O) (i : I) :
    Except ε (S × List O) := do
  let (s, out) ← f x.1 i
  return (s, x.2 ++ out)

/-- The inputs one after the other. -/
def runAfter (f : S → I → Except ε (S × List O)) (x : S × List O) (is : List I) :
    Except ε (S × List O) :=
  is.foldlM (take f) x

/-- The system takes an input: the component of its key does. -/
def route [DecidableEq K] (key : I → K) (f : K → S → I → Except ε (S × List O)) (s : K → S)
    (i : I) : Except ε ((K → S) × List O) := do
  let (c, out) ← f (key i) (s (key i)) i
  return (Function.update s (key i) c, out)

section

variable {f : S → I → Except ε (S × List O)}

@[simp] theorem runAfter_nil (x : S × List O) : runAfter f x [] = .ok x := rfl

theorem runAfter_cons (x : S × List O) (i : I) (is : List I) :
    runAfter f x (i :: is) = take f x i >>= fun y => runAfter f y is := rfl

theorem take_eq_ok {x y : S × List O} {i : I} :
    take f x i = .ok y ↔ ∃ out, f x.1 i = .ok (y.1, out) ∧ y.2 = x.2 ++ out := by
  rw [take]
  cases hf : f x.1 i with
  | error e => exact iff_of_false (fun h => nomatch h) fun ⟨_, h, _⟩ => nomatch h
  | ok z =>
    constructor
    · intro h
      obtain rfl : (z.1, x.2 ++ z.2) = y := Except.ok.inj h
      exact ⟨z.2, rfl, rfl⟩
    · rintro ⟨out, hz, hy⟩
      obtain rfl := Except.ok.inj hz
      exact congrArg Except.ok (Prod.ext rfl hy.symm)

theorem runAfter_cons_eq_ok {x z : S × List O} {i : I} {is : List I} :
    runAfter f x (i :: is) = .ok z ↔ ∃ y, take f x i = .ok y ∧ runAfter f y is = .ok z := by
  rw [runAfter_cons]
  cases take f x i with
  | error e => exact iff_of_false (fun h => nomatch h) fun ⟨_, h, _⟩ => nomatch h
  | ok y => exact ⟨fun h => ⟨y, rfl, h⟩, fun ⟨y', hy, h⟩ => Except.ok.inj hy ▸ h⟩

end

variable [DecidableEq K] {key : I → K} {f : K → S → I → Except ε (S × List O)}

theorem route_eq_ok {s : K → S} {i : I} {z : (K → S) × List O} : route key f s i = .ok z ↔
    ∃ c, f (key i) (s (key i)) i = .ok (c, z.2) ∧ z.1 = Function.update s (key i) c := by
  rw [route]
  cases f (key i) (s (key i)) i with
  | error e => exact iff_of_false (fun h => nomatch h) fun ⟨_, h, _⟩ => nomatch h
  | ok y =>
    constructor
    · intro h
      obtain rfl : (Function.update s (key i) y.1, y.2) = z := Except.ok.inj h
      exact ⟨y.1, rfl, rfl⟩
    · rintro ⟨c, hy, hz⟩
      obtain rfl := Except.ok.inj hy
      exact congrArg Except.ok (Prod.ext hz.symm rfl)

/-- The inputs of a key. -/
def ofKey (key : I → K) (k : K) (is : List I) : List I := is.filter fun i => key i = k

theorem ofKey_cons_self (i : I) (is : List I) :
    ofKey key (key i) (i :: is) = i :: ofKey key (key i) is :=
  List.filter_cons_of_pos (decide_eq_true rfl)

theorem ofKey_cons_of_ne {k : K} {i : I} (h : k ≠ key i) (is : List I) :
    ofKey key k (i :: is) = ofKey key k is :=
  List.filter_cons_of_neg (by simpa using Ne.symm h)

/-- What every component keeps while it takes inputs of its key, and that it puts its key on all
outputs. -/
structure Tagged (key : I → K) (f : K → S → I → Except ε (S × List O)) (tag : O → K)
    (Inv : K → S → Prop) : Prop where
  keeps : ∀ i s s' out, Inv (key i) s → f (key i) s i = .ok (s', out) → Inv (key i) s'
  tags : ∀ i s s' out, Inv (key i) s → f (key i) s i = .ok (s', out) →
    ∀ o ∈ out, tag o = key i

variable {tag : O → K} {Inv : K → S → Prop}

theorem Tagged.update (h : Tagged key f tag Inv) {s : K → S} (hs : ∀ k, Inv k (s k)) {i : I} {c : S}
    {out : List O} (hc : f (key i) (s (key i)) i = .ok (c, out)) (k : K) :
    Inv k (Function.update s (key i) c k) := by
  by_cases hk : k = key i
  · subst hk
    rw [Function.update_self]
    exact h.keeps i _ _ _ (hs _) hc
  · rw [Function.update_of_ne hk]
    exact hs k

/-- The outputs of one input, by key. -/
theorem Tagged.filter_out (h : Tagged key f tag Inv) {s : K → S} (hs : ∀ k, Inv k (s k)) {i : I}
    {c : S} {out : List O} (hc : f (key i) (s (key i)) i = .ok (c, out)) (k : K) :
    (out.filter fun o => tag o = k) = if k = key i then out else [] := by
  have htags := h.tags i _ _ _ (hs _) hc
  split
  · next hk =>
    exact List.filter_eq_self.2 fun o ho => decide_eq_true ((htags o ho).trans hk.symm)
  · next hk =>
    exact List.filter_eq_nil_iff.2 fun o ho => by
      simpa [htags o ho] using Ne.symm hk

/-- **A run of the system is a run of each component.** -/
theorem run_route (h : Tagged key f tag Inv) {is : List I} {s : K → S} (hs : ∀ k, Inv k (s k))
    {sent : List O} {z : (K → S) × List O} (hz : runAfter (route key f) (s, sent) is = .ok z)
    (k : K) : runAfter (f k) (s k, sent.filter fun o => tag o = k) (ofKey key k is) =
      .ok (z.1 k, z.2.filter fun o => tag o = k) := by
  induction is generalizing s sent with
  | nil =>
    obtain rfl := Except.ok.inj hz
    exact rfl
  | cons i is ih =>
    obtain ⟨y, hy, hz⟩ := runAfter_cons_eq_ok.1 hz
    obtain ⟨out, hout, hsent⟩ := take_eq_ok.1 hy
    obtain ⟨c, hc, hs'⟩ := route_eq_ok.1 hout
    obtain ⟨s', sent'⟩ := y
    dsimp only at hs' hsent hz hc
    subst hs' hsent
    have hrest := ih (h.update hs hc) hz
    have hfilter := h.filter_out hs hc k
    rw [List.filter_append, hfilter] at hrest
    by_cases hk : k = key i
    · subst hk
      rw [if_pos rfl, Function.update_self] at hrest
      rw [ofKey_cons_self, runAfter_cons_eq_ok]
      exact ⟨_, take_eq_ok.2 ⟨out, hc, rfl⟩, hrest⟩
    · rw [if_neg hk, List.append_nil, Function.update_of_ne hk] at hrest
      rwa [ofKey_cons_of_ne hk]

/-- What a component returns does not depend on the outputs before. -/
theorem runAfter_returns (g : S → I → Except ε (S × List O)) {s : S} {sent : List O} (sent' : List O)
    {is : List I} (h : ∃ z, runAfter g (s, sent) is = .ok z) :
    ∃ z, runAfter g (s, sent') is = .ok z := by
  induction is generalizing s sent sent' with
  | nil => exact ⟨_, rfl⟩
  | cons i is ih =>
    obtain ⟨z, hz⟩ := h
    obtain ⟨y, hy, hz⟩ := runAfter_cons_eq_ok.1 hz
    obtain ⟨out, hout, -⟩ := take_eq_ok.1 hy
    obtain ⟨z', hz'⟩ := ih (sent' ++ out) ⟨z, hz⟩
    exact ⟨z', runAfter_cons_eq_ok.2 ⟨(y.1, sent' ++ out), take_eq_ok.2 ⟨out, hout, rfl⟩, hz'⟩⟩

/-- **The system returns exactly when every component does.** -/
theorem run_route_returns_iff (h : Tagged key f tag Inv) (is : List I) {s : K → S}
    (hs : ∀ k, Inv k (s k)) (sent : List O) :
    (∃ z, runAfter (route key f) (s, sent) is = .ok z) ↔
      ∀ k, ∃ z, runAfter (f k) (s k, sent) (ofKey key k is) = .ok z := by
  refine ⟨fun ⟨z, hz⟩ k => runAfter_returns (f k) sent ⟨_, run_route h hs hz k⟩, fun hall => ?_⟩
  induction is generalizing s sent with
  | nil => exact ⟨_, rfl⟩
  | cons i is ih =>
    obtain ⟨z, hz⟩ := hall (key i)
    rw [ofKey_cons_self] at hz
    obtain ⟨y, hy, hz⟩ := runAfter_cons_eq_ok.1 hz
    obtain ⟨out, hout, hsent⟩ := take_eq_ok.1 hy
    have hroute : route key f s i = .ok (Function.update s (key i) y.1, out) :=
      route_eq_ok.2 ⟨y.1, hout, rfl⟩
    obtain ⟨z', hz'⟩ := ih (s := Function.update s (key i) y.1) (h.update hs hout) (sent ++ out)
      fun k => by
        by_cases hk : k = key i
        · subst hk
          rw [Function.update_self]
          exact runAfter_returns (f (key i)) _ ⟨z, hz⟩
        · have hk' := hall k
          rw [ofKey_cons_of_ne hk] at hk'
          rw [Function.update_of_ne hk]
          exact runAfter_returns (f k) _ hk'
    exact ⟨z', runAfter_cons_eq_ok.2 ⟨_, take_eq_ok.2 ⟨out, hroute, rfl⟩, hz'⟩⟩

end Routed
