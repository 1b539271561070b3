import TradingEcosystem.Common.Types

/-!
# The memory pool

`common/mem_pool.h`: a vector of blocks allocated once, and an index that runs ahead to the next
free block.  The wrap at the end of the vector is written `next_free_index_ == 0`, a comparison
whose value is dropped, so the index never comes back: block `store_.size()` is read instead,
which is `Fault.badIndex` here.  `allocate_eq` and `allocate_full` say what that means for every
pool the program can build: the pool hands out its blocks once each, in order, and the call that
would take the last one does not return.
-/

set_option autoImplicit false

namespace TradingEcosystem

/-- `MemPool::ObjectBlock`. -/
structure ObjectBlock (T : Type) where
  object : T
  isFree : Bool := true

/-- `MemPool`.  Only the blocks below `size` exist. -/
structure MemPool (T : Type) where
  store : Nat → ObjectBlock T
  size : Nat
  nextFreeIndex : Nat := 0

namespace MemPool

variable {T : Type}

/-- The constructor fills the vector with default objects marked free. -/
def init (default : T) (numElems : Nat) : MemPool T :=
  { store := fun _ => { object := default }, size := numElems }

/-- The object at an address. -/
def get (p : MemPool T) (a : Ptr) : T := (p.store a).object

/-- The block at an address is in use. -/
def Live (p : MemPool T) (a : Ptr) : Prop := (p.store a).isFree = false

instance (p : MemPool T) (a : Ptr) : Decidable (p.Live a) := inferInstanceAs (Decidable (_ = _))

/-- The address is that of a block in use. -/
def InUse (p : MemPool T) (a : Ptr) : Prop := a < p.size ∧ p.Live a

/-- Writing through a pointer. -/
def modify (p : MemPool T) (a : Ptr) (f : T → T) : MemPool T :=
  { p with store := Function.update p.store a { p.store a with object := f (p.store a).object } }

/-- The loop of `updateNextFreeIndex` at position `i`. -/
def scanFree (p : MemPool T) (initNextFreeIndex : Nat) : Nat → Nat → Except Fault Nat
  | 0, _ => .error .diverges
  | fuel + 1, i =>
    if i < p.size then
      if (p.store i).isFree then .ok i
      else do
        -- at `i + 1 == store_.size()` the source compares with `0` and assigns nothing
        assert (initNextFreeIndex ≠ i + 1) "Memory Pool out of space"
        scanFree p initNextFreeIndex fuel (i + 1)
    else .error .badIndex

/-- `updateNextFreeIndex`. -/
def updateNextFreeIndex (p : MemPool T) : Except Fault (MemPool T) := do
  let i ← p.scanFree p.nextFreeIndex (p.size + 1) p.nextFreeIndex
  return { p with nextFreeIndex := i }

/-- `allocate`, with the object the constructor arguments build. -/
def allocate (p : MemPool T) (obj : T) : Except Fault (MemPool T × Ptr) := do
  if p.nextFreeIndex < p.size then
    assert ((p.store p.nextFreeIndex).isFree = true)
      ("Expected free ObjectBlock at index:" ++ toString p.nextFreeIndex)
    let q ← updateNextFreeIndex
      { p with store := Function.update p.store p.nextFreeIndex { object := obj, isFree := false } }
    return (q, p.nextFreeIndex)
  else .error .badIndex

/-- `deallocate`.  The object stays in its block; only the flag changes. -/
def deallocate (p : MemPool T) (a : Ptr) : Except Fault (MemPool T) := do
  assert (a < p.size) "Element being deallocated does not belong to this Memory pool."
  assert ((p.store a).isFree = false) ("Expected in-use ObjectBlock at index:" ++ toString a)
  return { p with store := Function.update p.store a { p.store a with isFree := true } }

/-! ## Reading after writing -/

@[simp] theorem get_modify_self (p : MemPool T) (a : Ptr) (f : T → T) :
    (p.modify a f).get a = f (p.get a) := by
  simp [modify, get]

@[simp] theorem get_modify_ne (p : MemPool T) {a c : Ptr} (f : T → T) (h : c ≠ a) :
    (p.modify a f).get c = p.get c := by
  simp [modify, get, h]

theorem get_modify (p : MemPool T) (a c : Ptr) (f : T → T) :
    (p.modify a f).get c = if c = a then f (p.get a) else p.get c := by
  split
  · next h => rw [h, get_modify_self]
  · next h => rw [get_modify_ne p f h]

@[simp] theorem isFree_modify (p : MemPool T) (a c : Ptr) (f : T → T) :
    ((p.modify a f).store c).isFree = (p.store c).isFree := by
  by_cases h : c = a <;> simp [modify, h]

@[simp] theorem live_modify (p : MemPool T) (a c : Ptr) (f : T → T) :
    (p.modify a f).Live c ↔ p.Live c := by
  simp [Live]

@[simp] theorem size_modify (p : MemPool T) (a : Ptr) (f : T → T) :
    (p.modify a f).size = p.size := rfl

@[simp] theorem nextFreeIndex_modify (p : MemPool T) (a : Ptr) (f : T → T) :
    (p.modify a f).nextFreeIndex = p.nextFreeIndex := rfl

/-! ## What a pool can do

`Frontier` is the invariant the index keeps because it never goes back: everything from it onwards
is still free.  The three operations keep it, and under it each of them has a closed form. -/

/-- Every block from `nextFreeIndex` on is free. -/
def Frontier (p : MemPool T) : Prop :=
  ∀ i, p.nextFreeIndex ≤ i → (p.store i).isFree = true

theorem frontier_init (default : T) (n : Nat) : (init default n).Frontier :=
  fun _ _ => rfl

@[simp] theorem nextFreeIndex_init (default : T) (n : Nat) : (init default n).nextFreeIndex = 0 := rfl

theorem not_live_init (default : T) (n : Nat) (a : Ptr) : ¬ (init default n).Live a := by
  simp [init, Live]

theorem Frontier.lt_of_live {p : MemPool T} (h : p.Frontier) {a : Ptr} (ha : p.Live a) :
    a < p.nextFreeIndex := by
  by_contra hlt
  rw [Live, h a (Nat.le_of_not_lt hlt)] at ha
  exact absurd ha (by simp)

theorem Frontier.modify {p : MemPool T} (h : p.Frontier) (a : Ptr) (f : T → T) :
    (p.modify a f).Frontier :=
  fun i hi => by rw [isFree_modify]; exact h i hi

/-- The pool after a successful `allocate` under `Frontier`. -/
def push (p : MemPool T) (obj : T) : MemPool T :=
  { p with
    store := Function.update p.store p.nextFreeIndex { object := obj, isFree := false }
    nextFreeIndex := p.nextFreeIndex + 1 }

/-- The pool after a successful `deallocate`. -/
def release (p : MemPool T) (a : Ptr) : MemPool T :=
  { p with store := Function.update p.store a { p.store a with isFree := true } }

/-- There is room for one more `allocate`: the block after the next one exists. -/
def Room (p : MemPool T) : Prop := p.nextFreeIndex + 1 < p.size

instance (p : MemPool T) : Decidable p.Room := inferInstanceAs (Decidable (_ < _))

theorem allocate_eq {p : MemPool T} (h : p.Frontier) (hr : p.Room) (obj : T) :
    p.allocate obj = .ok (p.push obj, p.nextFreeIndex) := by
  have h1 : p.nextFreeIndex + 1 < p.size := hr
  have h0 : p.nextFreeIndex < p.size := Nat.lt_of_succ_lt h1
  have hf : (p.store (p.nextFreeIndex + 1)).isFree = true := h _ (Nat.le_succ _)
  have hscan : ∀ q : MemPool T, q.size = p.size → (q.store p.nextFreeIndex).isFree = false →
      (q.store (p.nextFreeIndex + 1)).isFree = true →
      q.scanFree p.nextFreeIndex (p.size + 1) p.nextFreeIndex = .ok (p.nextFreeIndex + 1) := by
    intro q hq hq0 hq1
    obtain ⟨k, hk⟩ : ∃ k, p.size = k + 1 := ⟨p.size - 1, by omega⟩
    simp [scanFree, hq, hq0, hq1, hk ▸ h0, hk ▸ h1, hk, assert]
  have hp := hscan
    { p with store := Function.update p.store p.nextFreeIndex { object := obj, isFree := false } }
    rfl (by simp) (by simpa using hf)
  rw [allocate, if_pos h0, assert_of (h _ (Nat.le_refl _)), ok_bind, updateNextFreeIndex]
  simp only [hp, ok_bind, pure_eq_ok, push]

/-- **The wrap is missing.**  The call that would hand out the last block, or one past it, reads
beyond the vector. -/
theorem allocate_full {p : MemPool T} (h : p.Frontier) (hr : ¬ p.Room) (obj : T) :
    p.allocate obj = .error .badIndex := by
  by_cases h0 : p.nextFreeIndex < p.size
  · have hs : p.size = p.nextFreeIndex + 1 := by
      have := hr; simp only [Room] at this; omega
    simp [allocate, updateNextFreeIndex, scanFree, hs, h _ (Nat.le_refl _), assert]
  · simp [allocate, h0]

theorem deallocate_eq {p : MemPool T} {a : Ptr} (ha : p.Live a) (hs : a < p.size) :
    p.deallocate a = .ok (p.release a) := by
  rw [deallocate, assert_of hs, ok_bind, assert_of (show (p.store a).isFree = false from ha),
    ok_bind, release, pure_eq_ok]

/-- A block that is not in use is refused. -/
theorem deallocate_free {p : MemPool T} {a : Ptr} (ha : ¬ p.Live a) (hs : a < p.size) :
    p.deallocate a =
      .error (.assertFailed ("Expected in-use ObjectBlock at index:" ++ toString a)) := by
  rw [deallocate, assert_of hs, ok_bind, assert, if_neg (show ¬ (p.store a).isFree = false from ha),
    error_bind]

theorem deallocate_eq_ok {p q : MemPool T} {a : Ptr} : p.deallocate a = .ok q ↔
    p.Live a ∧ a < p.size ∧ q = p.release a := by
  constructor
  · intro h
    obtain ⟨_, hlt, h'⟩ := bind_eq_ok.1 h
    obtain ⟨_, hlive, hq⟩ := bind_eq_ok.1 h'
    exact ⟨assert_eq_ok.1 hlive, assert_eq_ok.1 hlt, (Except.ok.inj hq).symm⟩
  · rintro ⟨hlive, hlt, rfl⟩
    exact deallocate_eq hlive hlt

/-- A successful `allocate` writes the object at the address it returns. -/
theorem get_of_allocate {p q : MemPool T} {obj : T} {a : Ptr} (h : p.allocate obj = .ok (q, a))
    (c : Ptr) : q.get c = if c = a then obj else p.get c := by
  rw [allocate] at h
  split at h
  · obtain ⟨_, -, h⟩ := bind_eq_ok.1 h
    obtain ⟨r, hr, h⟩ := bind_eq_ok.1 h
    obtain ⟨i, -, hr⟩ := bind_eq_ok.1 hr
    obtain rfl := Except.ok.inj hr
    obtain ⟨rfl, rfl⟩ := Prod.mk.inj (Except.ok.inj h)
    by_cases hc : c = p.nextFreeIndex
    · simp [get, hc]
    · simp [get, hc]
  · exact absurd h (by simp)

/-! ### The pool after `allocate` and `deallocate` -/

@[simp] theorem get_push_self (p : MemPool T) (obj : T) :
    (p.push obj).get p.nextFreeIndex = obj := by simp [push, get]

@[simp] theorem get_push_ne (p : MemPool T) (obj : T) {a : Ptr} (h : a ≠ p.nextFreeIndex) :
    (p.push obj).get a = p.get a := by simp [push, get, h]

@[simp] theorem live_push (p : MemPool T) (obj : T) (a : Ptr) :
    (p.push obj).Live a ↔ a = p.nextFreeIndex ∨ p.Live a := by
  by_cases h : a = p.nextFreeIndex <;> simp [push, Live, h]

@[simp] theorem size_push (p : MemPool T) (obj : T) : (p.push obj).size = p.size := rfl

@[simp] theorem nextFreeIndex_push (p : MemPool T) (obj : T) :
    (p.push obj).nextFreeIndex = p.nextFreeIndex + 1 := rfl

theorem Frontier.push {p : MemPool T} (h : p.Frontier) (obj : T) : (p.push obj).Frontier := by
  intro i hi
  have hne : i ≠ p.nextFreeIndex := by
    simp only [nextFreeIndex_push] at hi
    omega
  simp only [MemPool.push, Function.update_of_ne hne]
  exact h i (Nat.le_of_succ_le hi)

@[simp] theorem get_release (p : MemPool T) (a c : Ptr) : (p.release a).get c = p.get c := by
  by_cases h : c = a <;> simp [release, get, h]

@[simp] theorem live_release (p : MemPool T) (a c : Ptr) :
    (p.release a).Live c ↔ c ≠ a ∧ p.Live c := by
  by_cases h : c = a <;> simp [release, Live, h]

@[simp] theorem size_release (p : MemPool T) (a : Ptr) : (p.release a).size = p.size := rfl

@[simp] theorem nextFreeIndex_release (p : MemPool T) (a : Ptr) :
    (p.release a).nextFreeIndex = p.nextFreeIndex := rfl

theorem Frontier.release {p : MemPool T} (h : p.Frontier) (a : Ptr) : (p.release a).Frontier := by
  intro i hi
  by_cases hia : i = a
  · simp [MemPool.release, hia]
  · simp only [MemPool.release, Function.update_of_ne hia]
    exact h i hi

end MemPool
end TradingEcosystem
