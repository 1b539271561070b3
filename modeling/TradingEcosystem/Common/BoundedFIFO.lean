import TradingEcosystem.Common.LFQueue

/-!
# The queue as a bounded FIFO

`common/lf_queue.h` again, one whole call after the other, by a producer and a consumer that use the
pointers they were given.  `Fifo` is what the queue is for: everything that was published, in order,
and how much of it was taken, without a bound.  As long as no more is unread than one less than the
capacity, `LFQueue` cannot be told from it, however often its indices wrap (`run_refines`).

`Refines` relates the two.  The indices are the counts of `Fifo` modulo the capacity, so that the
ring is read as empty when they are equal, and never when it is full.
-/

set_option autoImplicit false

namespace TradingEcosystem

variable {T : Type}

/-- What the producer, the consumer or a loop that looks at the size may call. -/
inductive QueueCall (T : Type) where
  /-- `getNextToWriteTo`. -/
  | getNextToWriteTo
  /-- `*next_write = v`. -/
  | write (v : T)
  /-- `updateNextToWriteTo`. -/
  | updateNextToWriteTo
  /-- `getNextToRead`. -/
  | getNextToRead
  /-- The element the consumer was given a pointer to. -/
  | read
  /-- `updateReadIndex`. -/
  | updateReadIndex
  /-- `size`. -/
  | size

/-- What a call returns. -/
inductive QueueResult (T : Type) where
  | none
  /-- Whether the pointer is null. -/
  | pointer (isNull : Bool)
  | element (v : T)
  | size (n : Nat)

/-! ## The queue and its two users -/

/-- A queue, and the pointers its users hold. -/
structure QueueUse (T : Type) where
  queue : LFQueue T
  toWrite : Option Ptr := none
  toRead : Option Ptr := none

namespace QueueUse

/-- One call. -/
def step (x : QueueUse T) : QueueCall T → Except Fault (QueueUse T × QueueResult T)
  | .getNextToWriteTo => .ok ({ x with toWrite := some x.queue.getNextToWriteTo }, .pointer false)
  | .write v => do
    let i ← nonNull x.toWrite
    return ({ x with queue := x.queue.write i v }, .none)
  | .updateNextToWriteTo =>
    .ok ({ x with queue := x.queue.updateNextToWriteTo, toWrite := none }, .none)
  | .getNextToRead =>
    let found := x.queue.getNextToRead
    .ok ({ x with toRead := found }, .pointer found.isNone)
  | .read => do
    let i ← nonNull x.toRead
    return (x, .element (x.queue.store i))
  | .updateReadIndex => do
    let queue ← x.queue.updateReadIndex
    return ({ x with queue, toRead := none }, .none)
  | .size => .ok (x, .size x.queue.storeSize.toNat)

/-- The calls one after the other, with what they return. -/
def run : QueueUse T → List (QueueCall T) → Except Fault (QueueUse T × List (QueueResult T))
  | x, [] => .ok (x, [])
  | x, c :: cs => do
    let (x, result) ← x.step c
    let (x, results) ← run x cs
    return (x, result :: results)

/-- A new queue. -/
def start (size : UInt64) (default : T) : QueueUse T := { queue := .init size default }

end QueueUse

/-! ## What it is for -/

/-- **A queue without a bound**: what was published, and how many elements of it were taken. -/
structure Fifo (T : Type) where
  published : List T := []
  taken : Nat := 0
  /-- The producer may write. -/
  writing : Bool := false
  /-- What it has written and not published. -/
  written : Option T := none
  /-- The consumer has found an element. -/
  reading : Bool := false

namespace Fifo

/-- How many elements are unread. -/
def unread (t : Fifo T) : Nat := t.published.length - t.taken

/-- One call, if its user may make it: an element is written through a pointer, published when it
was written, and taken when it was found. -/
def step (t : Fifo T) : QueueCall T → Option (Fifo T × QueueResult T)
  | .getNextToWriteTo => some ({ t with writing := true }, .pointer false)
  | .write v => if t.writing then some ({ t with written := some v }, .none) else none
  | .updateNextToWriteTo =>
    match t.written with
    | some v =>
      some ({ t with published := t.published ++ [v], writing := false, written := none }, .none)
    | none => none
  | .getNextToRead =>
    some ({ t with reading := decide (0 < t.unread) }, .pointer (decide (t.unread = 0)))
  | .read =>
    if t.reading then t.published[t.taken]?.map fun v => (t, .element v) else none
  | .updateReadIndex =>
    if t.reading then some ({ t with taken := t.taken + 1, reading := false }, .none) else none
  | .size => some (t, .size t.unread)

/-- The calls one after the other, with at most `n` elements unread after each. -/
def run (n : Nat) : Fifo T → List (QueueCall T) → Option (Fifo T × List (QueueResult T))
  | t, [] => some (t, [])
  | t, c :: cs => do
    let (t, result) ← t.step c
    if t.unread ≤ n then
      let (t, results) ← run n t cs
      return (t, result :: results)
    else none

end Fifo

/-! ## The queue refines it -/

/-- **How the queue stands for the elements.** -/
structure Refines (x : QueueUse T) (t : Fifo T) : Prop where
  readIndex : x.queue.nextReadIndex = t.taken % x.queue.capacity
  writeIndex : x.queue.nextWriteIndex = t.published.length % x.queue.capacity
  storeSize : x.queue.storeSize.toNat = t.unread
  le : t.taken ≤ t.published.length
  room : t.published.length < t.taken + x.queue.capacity
  fits : x.queue.capacity < 2 ^ 64
  elements : ∀ k (hk : k < t.published.length), t.taken ≤ k →
    x.queue.store (k % x.queue.capacity) = t.published[k]
  toWrite : t.writing = true → x.toWrite = some x.queue.nextWriteIndex
  written : ∀ v, t.written = some v → x.queue.store x.queue.nextWriteIndex = v
  toRead : t.reading = true →
    x.toRead = some x.queue.nextReadIndex ∧ t.taken < t.published.length

namespace Refines

variable {x : QueueUse T} {t t' : Fifo T} {result : QueueResult T}

theorem unread_lt (h : Refines x t) : t.unread < x.queue.capacity := by
  have hroom := h.room
  have hle := h.le
  rw [Fifo.unread]
  omega

/-- The pointer to read is null exactly when nothing is unread. -/
theorem getNextToRead_eq (h : Refines x t) : x.queue.getNextToRead =
    if t.unread = 0 then none else some x.queue.nextReadIndex := by
  have hle := h.le
  have hempty : x.queue.nextReadIndex = x.queue.nextWriteIndex ↔ t.unread = 0 := by
    rw [h.readIndex, h.writeIndex, Fifo.unread]
    constructor
    · intro heq
      have := QueueRun.eq_of_mod_eq hle h.room heq
      omega
    · intro hzero
      rw [show t.taken = t.published.length by omega]
  rw [LFQueue.getNextToRead]
  by_cases hzero : t.unread = 0
  · rw [if_pos (hempty.2 hzero), if_pos hzero]
  · rw [if_neg (mt hempty.1 hzero), if_neg hzero]

/-- The slot that is written is none of the unread ones. -/
theorem free (h : Refines x t) {k : Nat} (hk : k < t.published.length) (hle : t.taken ≤ k) :
    k % x.queue.capacity ≠ x.queue.nextWriteIndex := by
  have hroom := h.room
  rw [h.writeIndex]
  intro heq
  exact absurd (QueueRun.eq_of_mod_eq (by omega) (by omega) heq) (by omega)

/-- Writing leaves the unread slots alone. -/
theorem write (h : Refines x t) (v : T) :
    Refines { x with queue := x.queue.write x.queue.nextWriteIndex v }
      { t with written := some v } := by
  refine { h with elements := fun k hk hle => ?_, written := fun w hw => ?_ }
  · change Function.update x.queue.store x.queue.nextWriteIndex v (k % x.queue.capacity) = _
    rw [Function.update_of_ne (h.free hk hle)]
    exact h.elements k hk hle
  · change Function.update x.queue.store x.queue.nextWriteIndex v x.queue.nextWriteIndex = w
    rw [Function.update_self]
    exact Option.some.inj hw

/-- Publishing what was written, if there is room for it. -/
theorem updateNextToWriteTo (h : Refines x t) {v : T} (hv : t.written = some v)
    (hroom : (t.published ++ [v]).length < t.taken + x.queue.capacity) :
    Refines { x with queue := x.queue.updateNextToWriteTo, toWrite := none }
      { t with published := t.published ++ [v], writing := false, written := none } := by
  have hle := h.le
  have hlt := h.unread_lt
  have hfits := h.fits
  have hlen : (t.published ++ [v]).length = t.published.length + 1 := List.length_append
  refine ⟨h.readIndex, ?_, ?_, ?_, hroom, h.fits, ?_, ?_, ?_, ?_⟩
  · change (x.queue.nextWriteIndex + 1) % x.queue.capacity = _ % x.queue.capacity
    rw [h.writeIndex, Nat.mod_add_mod, hlen]
  · change (x.queue.storeSize + 1).toNat = (t.published ++ [v]).length - t.taken
    have hsize := h.storeSize
    rw [Fifo.unread] at hsize hlt
    have hone : (1 : UInt64).toNat = 1 := rfl
    rw [UInt64.toNat_add, hone, hsize, Nat.mod_eq_of_lt (by omega), hlen]
    omega
  · change t.taken ≤ (t.published ++ [v]).length
    omega
  · intro k hk hkle
    change k < (t.published ++ [v]).length at hk
    change x.queue.store (k % x.queue.capacity) = (t.published ++ [v])[k]
    rw [List.getElem_append]
    split
    · next hold => exact h.elements k hold hkle
    · next hnew =>
      obtain rfl : k = t.published.length := by omega
      rw [← h.writeIndex, h.written v hv]
      simp
  · intro hw
    cases hw
  · intro w hw
    cases hw
  · intro hr
    obtain ⟨hfound, hunread⟩ := h.toRead hr
    refine ⟨hfound, ?_⟩
    change t.taken < (t.published ++ [v]).length
    omega

/-- Taking the element that was found. -/
theorem updateReadIndex (h : Refines x t) (hr : t.taken < t.published.length) :
    ∃ queue, x.queue.updateReadIndex = .ok queue ∧ queue.capacity = x.queue.capacity ∧
      Refines { x with queue, toRead := none }
        { t with taken := t.taken + 1, reading := false } := by
  have hsize := h.storeSize
  have hroom := h.room
  rw [Fifo.unread] at hsize
  have hne : x.queue.storeSize ≠ 0 := by
    intro h0
    rw [h0, UInt64.toNat_zero] at hsize
    omega
  have hpos : 1 ≤ x.queue.storeSize := by
    rw [UInt64.le_iff_toNat_le, hsize]
    change 1 ≤ _
    omega
  refine ⟨{ x.queue with
    nextReadIndex := (x.queue.nextReadIndex + 1) % x.queue.capacity
    storeSize := x.queue.storeSize - 1 }, ?_, rfl, ?_⟩
  · rw [LFQueue.updateReadIndex, LFQueue.checkSize, assert_of hne, ok_bind, pure_eq_ok]
  refine ⟨?_, h.writeIndex, ?_, hr, ?_, h.fits, ?_, h.toWrite, h.written, ?_⟩
  · change (x.queue.nextReadIndex + 1) % x.queue.capacity = (t.taken + 1) % x.queue.capacity
    rw [h.readIndex, Nat.mod_add_mod]
  · change (x.queue.storeSize - 1).toNat = t.published.length - (t.taken + 1)
    have hone : (1 : UInt64).toNat = 1 := rfl
    rw [UInt64.toNat_sub_of_le _ _ hpos, hsize, hone]
    omega
  · change t.published.length < t.taken + 1 + x.queue.capacity
    omega
  · exact fun k hk hle => h.elements k hk (Nat.le_of_succ_le hle)
  · intro hr
    cases hr

/-- **One call.** -/
theorem step (h : Refines x t) {c : QueueCall T} (ht : t.step c = some (t', result))
    (hroom : t'.unread < x.queue.capacity) :
    ∃ x', x.step c = .ok (x', result) ∧ x'.queue.capacity = x.queue.capacity ∧ Refines x' t' := by
  cases c with
  | getNextToWriteTo =>
    obtain ⟨rfl, rfl⟩ := Prod.mk.inj (Option.some.inj ht)
    exact ⟨_, rfl, rfl, { h with toWrite := fun _ => rfl }⟩
  | write v =>
    rw [Fifo.step] at ht
    split at ht
    · next hw =>
      obtain ⟨rfl, rfl⟩ := Prod.mk.inj (Option.some.inj ht)
      have hslot : nonNull x.toWrite = .ok x.queue.nextWriteIndex := by
        rw [h.toWrite hw, nonNull_some]
      refine ⟨{ x with queue := x.queue.write x.queue.nextWriteIndex v }, ?_, rfl, h.write v⟩
      rw [QueueUse.step, hslot, ok_bind, pure_eq_ok]
    · cases ht
  | updateNextToWriteTo =>
    rw [Fifo.step] at ht
    split at ht
    · next v hv =>
      obtain ⟨rfl, rfl⟩ := Prod.mk.inj (Option.some.inj ht)
      have hlen : (t.published ++ [v]).length - t.taken < x.queue.capacity := hroom
      exact ⟨_, rfl, rfl, h.updateNextToWriteTo hv (by omega)⟩
    · cases ht
  | getNextToRead =>
    obtain ⟨rfl, rfl⟩ := Prod.mk.inj (Option.some.inj ht)
    have hfound := h.getNextToRead_eq
    have hnull : x.queue.getNextToRead.isNone = decide (t.unread = 0) := by
      rw [hfound]
      by_cases hzero : t.unread = 0
      · rw [if_pos hzero, decide_eq_true hzero, Option.isNone_none]
      · rw [if_neg hzero, decide_eq_false hzero, Option.isNone_some]
    refine ⟨{ x with toRead := x.queue.getNextToRead }, ?_, rfl, { h with toRead := ?_ }⟩
    · rw [QueueUse.step, ← hnull]
    · intro hr
      have hpos : 0 < t.unread := of_decide_eq_true hr
      refine ⟨?_, Nat.lt_of_sub_pos hpos⟩
      rw [hfound, if_neg (Nat.ne_of_gt hpos)]
  | read =>
    rw [Fifo.step] at ht
    split at ht
    · next hr =>
      obtain ⟨hfound, hlt⟩ := h.toRead hr
      rw [List.getElem?_eq_getElem hlt] at ht
      obtain ⟨rfl, rfl⟩ := Prod.mk.inj (Option.some.inj ht)
      have hslot : nonNull x.toRead = .ok x.queue.nextReadIndex := by rw [hfound, nonNull_some]
      refine ⟨x, ?_, rfl, h⟩
      rw [QueueUse.step, hslot, ok_bind, h.readIndex, h.elements _ hlt (Nat.le_refl _), pure_eq_ok]
    · cases ht
  | updateReadIndex =>
    rw [Fifo.step] at ht
    split at ht
    · next hr =>
      obtain ⟨rfl, rfl⟩ := Prod.mk.inj (Option.some.inj ht)
      obtain ⟨queue, hqueue, hcap, hrefines⟩ := h.updateReadIndex (h.toRead hr).2
      refine ⟨_, ?_, hcap, hrefines⟩
      rw [QueueUse.step, hqueue, ok_bind, pure_eq_ok]
    · cases ht
  | size =>
    obtain ⟨rfl, rfl⟩ := Prod.mk.inj (Option.some.inj ht)
    refine ⟨x, ?_, rfl, h⟩
    rw [QueueUse.step, h.storeSize]

/-- **A run of calls.** -/
theorem run {n : Nat} (h : Refines x t) (hn : n < x.queue.capacity) {calls : List (QueueCall T)}
    {results : List (QueueResult T)} (ht : t.run n calls = some (t', results)) :
    ∃ x', x.run calls = .ok (x', results) ∧ x'.queue.capacity = x.queue.capacity ∧
      Refines x' t' := by
  induction calls generalizing x t results with
  | nil =>
    obtain ⟨rfl, rfl⟩ := Prod.mk.inj (Option.some.inj ht)
    exact ⟨x, rfl, rfl, h⟩
  | cons c cs ih =>
    rw [Fifo.run] at ht
    obtain ⟨⟨t₁, result⟩, hstep, ht⟩ := Option.bind_eq_some_iff.1 ht
    dsimp only at ht
    split at ht
    case isFalse => cases ht
    next hle =>
    obtain ⟨⟨t₂, rest⟩, hrun, ht⟩ := Option.bind_eq_some_iff.1 ht
    obtain ⟨rfl, rfl⟩ := Prod.mk.inj (Option.some.inj ht)
    obtain ⟨x₁, hx₁, hcap₁, hrefines₁⟩ := h.step hstep (Nat.lt_of_le_of_lt hle hn)
    obtain ⟨x₂, hx₂, hcap₂, hrefines₂⟩ := ih hrefines₁ (hcap₁ ▸ hn) hrun
    refine ⟨x₂, ?_, hcap₂.trans hcap₁, hrefines₂⟩
    rw [QueueUse.run, hx₁, ok_bind]
    dsimp only
    rw [hx₂, ok_bind, pure_eq_ok]

theorem start {size : UInt64} (hsize : 0 < size) (default : T) :
    Refines (QueueUse.start size default) {} where
  readIndex := (Nat.zero_mod _).symm
  writeIndex := (Nat.zero_mod _).symm
  storeSize := rfl
  le := Nat.le_refl 0
  room := Nat.lt_of_lt_of_le (UInt64.lt_iff_toNat_lt.1 hsize) (Nat.le_add_left _ _)
  fits := size.toNat_lt
  elements := fun _ hk => absurd hk (Nat.not_lt_zero _)
  toWrite := fun h => by cases h
  written := fun _ h => by cases h
  toRead := fun h => by cases h

end Refines

/-- **What holds between two calls**: how many elements are unread, in which slots they are, and
that the producer has none of these slots to write to. -/
structure LooksLike (x : QueueUse T) (t : Fifo T) : Prop where
  null_iff : x.queue.getNextToRead = none ↔ x.queue.storeSize = 0
  size : x.queue.storeSize.toNat = t.unread
  slots : ∀ k (hk : k < t.published.length), t.taken ≤ k →
    x.queue.store (k % x.queue.capacity) = t.published[k]
  spared : t.writing = true → ∀ i, x.toWrite = some i → ∀ k < t.published.length, t.taken ≤ k →
    i ≠ k % x.queue.capacity

theorem Refines.looksLike {x : QueueUse T} {t : Fifo T} (h : Refines x t) : LooksLike x t where
  null_iff := by
    have hsize : x.queue.storeSize = 0 ↔ t.unread = 0 := by
      rw [← UInt64.toNat_inj, h.storeSize]
      exact Iff.rfl
    rw [h.getNextToRead_eq, hsize]
    by_cases hzero : t.unread = 0
    · rw [if_pos hzero]
      exact iff_of_true rfl hzero
    · rw [if_neg hzero]
      exact iff_of_false (by simp) hzero
  size := h.storeSize
  slots := h.elements
  spared := by
    intro hw i hi k hk hle
    obtain rfl := Option.some.inj ((h.toWrite hw).symm.trans hi)
    exact (h.free hk hle).symm

/-- Calls that leave at most one element less than the capacity unread return what an unbounded
queue returns, and none of them stops the program. -/
theorem QueueUse.run_eq_fifo {size : UInt64} (hsize : 2 ≤ size) (default : T)
    {calls : List (QueueCall T)} {t : Fifo T} {results : List (QueueResult T)}
    (h : Fifo.run (size.toNat - 1) {} calls = some (t, results)) :
    ∃ x, (QueueUse.start size default).run calls = .ok (x, results) ∧ LooksLike x t := by
  have htwo : 2 ≤ size.toNat := UInt64.le_iff_toNat_le.1 hsize
  have hpos : 0 < size := UInt64.lt_iff_toNat_lt.2 (Nat.lt_of_lt_of_le Nat.zero_lt_two htwo)
  have hroom : size.toNat - 1 < size.toNat := by omega
  obtain ⟨x, hx, -, hrefines⟩ := (Refines.start hpos default).run hroom h
  exact ⟨x, hx, hrefines.looksLike⟩

/-- Two elements through two slots, of which one may be unread. -/
theorem QueueUse.run_eq_fifo_two : ∃ x, (QueueUse.start 2 0).run
    [.getNextToWriteTo, .write 5, .updateNextToWriteTo, .getNextToRead, .read, .updateReadIndex,
      .getNextToWriteTo, .write 6, .updateNextToWriteTo, .size, .getNextToRead, .read] =
    .ok (x, [.pointer false, .none, .none, .pointer false, .element 5, .none,
      .pointer false, .none, .none, .size 1, .pointer false, .element 6]) ∧
    LooksLike x { published := [5, 6], taken := 1, reading := true } :=
  QueueUse.run_eq_fifo (by decide) 0 rfl

end TradingEcosystem
