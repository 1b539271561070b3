import TradingEcosystem.Common.MemPool
import TradingEcosystem.Lib.Along

/-!
# Sequences of calls of a pool

A pool and the elements its owner holds.  The owner frees only what it holds, and never holds more
than one less than the pool has blocks, so that there is always a free block to find.  All the same
the pool lasts for as many calls of `allocate` as it has blocks, less one: `returns_iff`.
-/

set_option autoImplicit false

namespace TradingEcosystem

variable {T : Type}

/-- A call of the pool. -/
inductive PoolCall (T : Type) where
  | allocate (obj : T)
  | deallocate (a : Ptr)

/-- The call is one of `allocate`. -/
def PoolCall.isAllocate : PoolCall T → Bool
  | .allocate _ => true
  | .deallocate _ => false

/-- A pool, and what was allocated and not freed. -/
structure PoolUse (T : Type) where
  pool : MemPool T
  live : List Ptr := []

namespace PoolUse

/-- One call. -/
def step (x : PoolUse T) : PoolCall T → Except Fault (PoolUse T)
  | .allocate obj => do
    let (pool, a) ← x.pool.allocate obj
    return { pool, live := a :: x.live }
  | .deallocate a => do
    let pool ← x.pool.deallocate a
    return { pool, live := x.live.erase a }

/-- A call takes the pool on. -/
def Next (x : PoolUse T) (c : PoolCall T) (x' : PoolUse T) : Prop := x.step c = .ok x'

/-- The owner may make the call: it leaves a free block, or frees what is live. -/
def Allowed (x : PoolUse T) : PoolCall T → Prop
  | .allocate _ => x.live.length + 1 ≤ x.pool.size - 1
  | .deallocate a => a ∈ x.live

/-- A new pool. -/
def start (default : T) (numElems : Nat) : PoolUse T := { pool := .init default numElems }

/-- How many of the calls are of `allocate`. -/
def allocations (calls : List (PoolCall T)) : Nat := calls.countP PoolCall.isAllocate

/-- What holds between two calls.  The blocks from the index on were never handed out. -/
structure Lasting (x : PoolUse T) : Prop where
  frontier : x.pool.Frontier
  index_lt : x.pool.nextFreeIndex < x.pool.size
  live : ∀ a ∈ x.live, x.pool.Live a
  nodup : x.live.Nodup

variable {x : PoolUse T}

theorem lasting_start (default : T) {n : Nat} (hn : 0 < n) : Lasting (start default n) where
  frontier := MemPool.frontier_init default n
  index_lt := hn
  live := fun _ ha => absurd ha List.not_mem_nil
  nodup := List.nodup_nil

/-- While there is a block after the next one, `allocate` hands out the next one. -/
theorem Lasting.allocate (h : Lasting x) (hr : x.pool.Room) (obj : T) :
    x.step (.allocate obj) =
        .ok { pool := x.pool.push obj, live := x.pool.nextFreeIndex :: x.live } ∧
      Lasting { pool := x.pool.push obj, live := x.pool.nextFreeIndex :: x.live } := by
  refine ⟨?_, h.frontier.push obj, hr, ?_, ?_⟩
  · rw [step, MemPool.allocate_eq h.frontier hr, ok_bind]
    rfl
  · intro a ha
    rw [MemPool.live_push]
    exact (List.mem_cons.1 ha).imp_right (h.live a)
  · refine List.nodup_cons.2 ⟨fun hmem => ?_, h.nodup⟩
    exact Nat.lt_irrefl _ (h.frontier.lt_of_live (h.live _ hmem))

/-- After that it reads past the vector. -/
theorem Lasting.allocate_error (h : Lasting x) (hr : ¬ x.pool.Room) (obj : T) :
    x.step (.allocate obj) = .error .badIndex := by
  rw [step, MemPool.allocate_full h.frontier hr]
  rfl

/-- What is live can be freed at any time. -/
theorem Lasting.deallocate (h : Lasting x) {a : Ptr} (ha : a ∈ x.live) :
    x.step (.deallocate a) = .ok { pool := x.pool.release a, live := x.live.erase a } ∧
      Lasting { pool := x.pool.release a, live := x.live.erase a } := by
  have hlive := h.live a ha
  have hlt := Nat.lt_trans (h.frontier.lt_of_live hlive) h.index_lt
  refine ⟨?_, h.frontier.release a, h.index_lt, ?_, h.nodup.erase a⟩
  · rw [step, MemPool.deallocate_eq hlive hlt, ok_bind, pure_eq_ok]
  · intro b hb
    obtain ⟨hne, hmem⟩ := (h.nodup.mem_erase_iff).1 hb
    exact (MemPool.live_release _ _ _).2 ⟨hne, h.live b hmem⟩

/-- **How long a pool lasts.** -/
theorem Lasting.returns_iff (h : Lasting x) {calls : List (PoolCall T)}
    (ha : Run.Along Next Allowed x calls) : (∃ x', calls.foldlM step x = .ok x') ↔
      x.pool.nextFreeIndex + allocations calls < x.pool.size := by
  induction calls generalizing x with
  | nil => exact iff_of_true ⟨x, rfl⟩ h.index_lt
  | cons c cs ih =>
    obtain ⟨hc, hcs⟩ := ha
    rw [List.foldlM_cons]
    cases c with
    | allocate obj =>
      have hcount : allocations (.allocate obj :: cs) = allocations cs + 1 :=
        List.countP_cons_of_pos rfl
      by_cases hr : x.pool.Room
      · obtain ⟨hstep, hlasting⟩ := h.allocate hr obj
        rw [hstep, ok_bind, ih hlasting (hcs _ hstep), hcount, MemPool.nextFreeIndex_push,
          MemPool.size_push]
        omega
      · rw [h.allocate_error hr]
        refine iff_of_false (fun ⟨_, hx'⟩ => by cases hx') ?_
        rw [MemPool.Room] at hr
        omega
    | deallocate a =>
      have hcount : allocations (.deallocate a :: cs) = allocations cs :=
        List.countP_cons_of_neg (by simp [PoolCall.isAllocate])
      obtain ⟨hstep, hlasting⟩ := h.deallocate hc
      rw [hstep, ok_bind, ih hlasting (hcs _ hstep), hcount]
      exact Iff.rfl

/-- The calls of an owner that always leaves a block free return exactly as long as `allocate` was
called less often than there are blocks. -/
theorem returns_iff_allocations_lt (default : T) {numElems : Nat} (hn : 2 ≤ numElems)
    {calls : List (PoolCall T)} (ha : Run.Along Next Allowed (start default numElems) calls) :
    (∃ x, calls.foldlM step (start default numElems) = .ok x) ↔ allocations calls < numElems := by
  have h := (lasting_start default (Nat.lt_of_lt_of_le Nat.zero_lt_two hn)).returns_iff ha
  rwa [show (start default numElems).pool.nextFreeIndex = 0 from rfl, Nat.zero_add] at h

/-- One element taken, freed, and taken again. -/
def takeFreeTake : List (PoolCall Nat) := [.allocate 7, .deallocate 0, .allocate 8]

theorem allowed_takeFreeTake {n : Nat} (hn : 2 ≤ n) :
    Run.Along Next Allowed (start 0 n) takeFreeTake := by
  have h := lasting_start 0 (Nat.lt_of_lt_of_le Nat.zero_lt_two hn)
  have hroom : 0 + 1 ≤ n - 1 := Nat.le_sub_of_add_le hn
  obtain ⟨hstep, hlasting⟩ := h.allocate hn 7
  refine ⟨hroom, fun x hx => ?_⟩
  obtain rfl := Except.ok.inj (hstep.symm.trans hx)
  refine ⟨List.mem_cons_self, fun y hy => ⟨?_, fun _ _ => trivial⟩⟩
  obtain rfl := Except.ok.inj ((hlasting.deallocate List.mem_cons_self).1.symm.trans hy)
  exact hroom

theorem returns_iff_allocations_lt_three :
    (∃ x, takeFreeTake.foldlM step (start 0 3) = .ok x) ↔ allocations takeFreeTake < 3 :=
  returns_iff_allocations_lt 0 (by decide) (allowed_takeFreeTake (by decide))

/-- In a pool of two blocks the second call of `allocate` finds the index at the end. -/
theorem not_returns : ¬ ∀ (numElems : Nat) (calls : List (PoolCall Nat)), 2 ≤ numElems →
    Run.Along Next Allowed (start 0 numElems) calls →
      ∃ x, calls.foldlM step (start 0 numElems) = .ok x := by
  intro h
  have hallowed := allowed_takeFreeTake (Nat.le_refl 2)
  have hreturns := ((lasting_start 0 Nat.zero_lt_two).returns_iff hallowed).1
    (h 2 takeFreeTake (Nat.le_refl 2) hallowed)
  exact absurd hreturns (by decide)

end PoolUse

end TradingEcosystem
