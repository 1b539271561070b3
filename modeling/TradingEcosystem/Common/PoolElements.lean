import TradingEcosystem.Common.PoolCalls

/-!
# The elements of a pool

The pool has no list of what it handed out, only a flag in every block and an index that moves on.
`Tracked` ties the two to the elements an owner holds: the flags are down exactly for these, and
from the index on there is none.  So `allocate` cannot hand out an element twice, and neither call
writes to an element that somebody else holds.
-/

set_option autoImplicit false

namespace TradingEcosystem

variable {T : Type}

/-- How many blocks are in use. -/
def MemPool.usedBlocks (p : MemPool T) : Nat :=
  (List.range p.size).countP fun i => (p.store i).isFree = false

namespace PoolUse

/-- How many of the calls are of `deallocate`. -/
def deallocations (calls : List (PoolCall T)) : Nat := calls.countP fun c => !c.isAllocate

/-- **No element is handed out twice**, and neither call touches the element of another. -/
structure Unaliased (x : PoolUse T) : Prop where
  distinct : x.live.Nodup
  /-- The flag of a block is down exactly while the block is live. -/
  flag : ∀ a, a < x.pool.size → ((x.pool.store a).isFree = false ↔ a ∈ x.live)
  /-- A new element is not live, and the others stay what they are, with their flags. -/
  allocate : ∀ obj q a, x.pool.allocate obj = .ok (q, a) →
    a ∉ x.live ∧ ∀ c ∈ x.live, q.store c = x.pool.store c
  /-- Only a live element can be freed, and the others stay what they are. -/
  deallocate : ∀ a q, x.pool.deallocate a = .ok q →
    a ∈ x.live ∧ ∀ c ∈ x.live, c ≠ a → q.store c = x.pool.store c
  nextFree : x.pool.nextFreeIndex < x.pool.size →
    (x.pool.store x.pool.nextFreeIndex).isFree = true

/-! ## The flags and the elements -/

/-- The flags are down exactly for the elements, and from the index on there is none. -/
structure Tracked (x : PoolUse T) : Prop where
  frontier : x.pool.Frontier
  index_le : x.pool.nextFreeIndex ≤ x.pool.size
  live_iff : ∀ a, x.pool.Live a ↔ a ∈ x.live
  nodup : x.live.Nodup

variable {x x' : PoolUse T}

theorem tracked_start (default : T) (numElems : Nat) : Tracked (start default numElems) where
  frontier := MemPool.frontier_init default numElems
  index_le := Nat.zero_le numElems
  live_iff := fun a => iff_of_false (MemPool.not_live_init default numElems a) List.not_mem_nil
  nodup := List.nodup_nil

/-- The block at the index is not live. -/
theorem Tracked.index_not_mem (h : Tracked x) : x.pool.nextFreeIndex ∉ x.live := fun hmem =>
  Nat.lt_irrefl _ (h.frontier.lt_of_live ((h.live_iff _).2 hmem))

/-- An `allocate` that returns had room. -/
theorem Tracked.allocate_eq_ok (h : Tracked x) {obj : T} {q : MemPool T} {a : Ptr} :
    x.pool.allocate obj = .ok (q, a) ↔
      x.pool.Room ∧ q = x.pool.push obj ∧ a = x.pool.nextFreeIndex := by
  by_cases hr : x.pool.Room
  · rw [MemPool.allocate_eq h.frontier hr, Except.ok.injEq, Prod.mk.injEq, and_iff_right hr,
      eq_comm, eq_comm (a := a)]
  · rw [MemPool.allocate_full h.frontier hr]
    exact iff_of_false (by simp) fun hcond => hr hcond.1

/-- **What a call does.** -/
theorem Tracked.step_cases (h : Tracked x) {c : PoolCall T} (hx : x.step c = .ok x') :
    (∃ obj, c = .allocate obj ∧ x.pool.Room ∧
      x' = { pool := x.pool.push obj, live := x.pool.nextFreeIndex :: x.live }) ∨
    ∃ a, c = .deallocate a ∧ x.pool.Live a ∧
      x' = { pool := x.pool.release a, live := x.live.erase a } := by
  cases c with
  | allocate obj =>
    obtain ⟨⟨q, a⟩, hq, hx⟩ := bind_eq_ok.1 hx
    obtain ⟨hr, rfl, rfl⟩ := h.allocate_eq_ok.1 hq
    exact Or.inl ⟨obj, rfl, hr, (Except.ok.inj hx).symm⟩
  | deallocate a =>
    obtain ⟨q, hq, hx⟩ := bind_eq_ok.1 hx
    obtain ⟨hlive, -, rfl⟩ := MemPool.deallocate_eq_ok.1 hq
    exact Or.inr ⟨a, rfl, hlive, (Except.ok.inj hx).symm⟩

/-- A call keeps the flags in step with the elements. -/
theorem Tracked.step (h : Tracked x) {c : PoolCall T} (hx : x.step c = .ok x') : Tracked x' := by
  obtain ⟨obj, rfl, hr, rfl⟩ | ⟨a, rfl, -, rfl⟩ := h.step_cases hx
  · refine ⟨h.frontier.push obj, Nat.le_of_lt hr, fun b => ?_, ?_⟩
    · rw [MemPool.live_push, h.live_iff, List.mem_cons]
    · exact List.nodup_cons.2 ⟨h.index_not_mem, h.nodup⟩
  · refine ⟨h.frontier.release a, h.index_le, fun b => ?_, h.nodup.erase a⟩
    rw [MemPool.live_release, h.live_iff, h.nodup.mem_erase_iff]

/-- Live elements do not alias while the flags are in step. -/
theorem Tracked.unaliased (h : Tracked x) : Unaliased x where
  distinct := h.nodup
  flag := fun a _ => h.live_iff a
  allocate := by
    intro obj q a hq
    obtain ⟨-, rfl, rfl⟩ := h.allocate_eq_ok.1 hq
    refine ⟨h.index_not_mem, fun c hc => Function.update_of_ne ?_ _ _⟩
    rintro rfl
    exact h.index_not_mem hc
  deallocate := by
    intro a q hq
    obtain ⟨hlive, -, rfl⟩ := MemPool.deallocate_eq_ok.1 hq
    exact ⟨(h.live_iff a).1 hlive, fun c _ hne => Function.update_of_ne hne _ _⟩
  nextFree := fun _ => h.frontier _ (Nat.le_refl _)

/-- The blocks in use are as many as the elements. -/
theorem Tracked.usedBlocks (h : Tracked x) : x.pool.usedBlocks = x.live.length := by
  have hmem : ∀ a, a ∈ (List.range x.pool.size).filter (fun i => (x.pool.store i).isFree = false) ↔
      a ∈ x.live := by
    intro a
    rw [List.mem_filter, List.mem_range, decide_eq_true_iff, ← h.live_iff a]
    refine and_iff_right_of_imp fun hlive => ?_
    exact Nat.lt_of_lt_of_le (h.frontier.lt_of_live hlive) h.index_le
  rw [MemPool.usedBlocks, List.countP_eq_length_filter]
  exact ((List.perm_ext_iff_of_nodup (List.nodup_range.filter _) h.nodup).2 hmem).length_eq

/-! ## Sequences of calls -/

/-- Each call counts for an element more or for one less. -/
theorem Tracked.length_live (h : Tracked x) {calls : List (PoolCall T)}
    (hx : calls.foldlM PoolUse.step x = .ok x') :
    Tracked x' ∧
      x'.live.length + deallocations calls = x.live.length + allocations calls := by
  induction calls generalizing x with
  | nil =>
    obtain rfl : x = x' := Except.ok.inj hx
    exact ⟨h, rfl⟩
  | cons c calls ih =>
    rw [List.foldlM_cons] at hx
    obtain ⟨y, hy, hx⟩ := bind_eq_ok.1 hx
    obtain ⟨htracked, hlength⟩ := ih (h.step hy) hx
    refine ⟨htracked, ?_⟩
    obtain ⟨obj, rfl, -, rfl⟩ | ⟨a, rfl, hlive, rfl⟩ := h.step_cases hy
    · have hallocs : allocations (.allocate obj :: calls) = allocations calls + 1 :=
        List.countP_cons_of_pos rfl
      have hdeallocs : deallocations (.allocate obj :: calls) = deallocations calls :=
        List.countP_cons_of_neg (by simp [PoolCall.isAllocate])
      rw [List.length_cons] at hlength
      omega
    · have hmem := (h.live_iff a).1 hlive
      have hpos := List.length_pos_of_mem hmem
      have hallocs : allocations (.deallocate a :: calls) = allocations calls :=
        List.countP_cons_of_neg (by simp [PoolCall.isAllocate])
      have hdeallocs : deallocations (.deallocate a :: calls) = deallocations calls + 1 :=
        List.countP_cons_of_pos rfl
      rw [List.length_erase_of_mem hmem] at hlength
      omega

/-- As long as the calls return, live elements never alias, and the blocks in use are the
allocations less the deallocations. -/
theorem unaliased_of_calls (default : T) (numElems : Nat) {calls : List (PoolCall T)}
    (hx : calls.foldlM step (start default numElems) = .ok x) :
    Unaliased x ∧ x.pool.usedBlocks = allocations calls - deallocations calls := by
  obtain ⟨htracked, hlength⟩ := (tracked_start default numElems).length_live hx
  refine ⟨htracked.unaliased, ?_⟩
  have hstart : (start default numElems).live.length = 0 := rfl
  rw [htracked.usedBlocks]
  omega

/-- One element is held after two were taken and one was freed, and the blocks beside it are free. -/
theorem unaliased_of_calls_three :
    Unaliased { pool := (((MemPool.init 0 3).push 7).push 8).release 0, live := [1] } ∧
      ((((MemPool.init 0 3).push 7).push 8).release 0).usedBlocks =
        allocations [.allocate 7, .allocate 8, .deallocate 0] -
          deallocations [PoolCall.allocate 7, .allocate 8, .deallocate 0] := by
  refine unaliased_of_calls 0 3 ?_
  obtain ⟨hfirst, hlasting⟩ := (lasting_start 0 (by decide : 0 < 3)).allocate (by decide) 7
  obtain ⟨hsecond, hlasting⟩ := hlasting.allocate (by decide) 8
  rw [List.foldlM_cons, hfirst, ok_bind, List.foldlM_cons, hsecond, ok_bind, List.foldlM_cons,
    (hlasting.deallocate (a := 0) (by decide)).1]
  rfl

end PoolUse

end TradingEcosystem
