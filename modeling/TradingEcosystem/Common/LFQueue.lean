import Mathlib.Algebra.Group.Nat.Defs
import TradingEcosystem.Common.Types
import TradingEcosystem.Lib.Along

/-!
# The lock-free queue

`common/lf_queue.h`: a ring of slots between one producer and one consumer, with two indices and a
count of the elements.  There is no check for a full ring, and the count is changed in another step
than the index it belongs to.

The first part has the functions of the source.  The second has the two threads, every access to an
atomic one step, so that a run of `QueueRun` is any interleaving: the producer writes a slot,
advances its index and adds to the count; the consumer compares the indices, uses the slot, advances
its index, checks the count and subtracts from it.  Some of the repository's loops look at the count
before they use what they found (`ConsumerLoop.size`) and some do not (`ConsumerLoop.pointer`).

`Coherent` is the invariant of both threads as long as the ring never fills up.  It makes the
indices counts of what was emitted and read, modulo the capacity.
-/

set_option autoImplicit false

namespace TradingEcosystem

/-- `LFQueue`.  Only the slots below `capacity` exist. -/
structure LFQueue (T : Type) where
  store : Nat → T
  capacity : Nat
  nextWriteIndex : Nat := 0
  nextReadIndex : Nat := 0
  storeSize : UInt64 := 0

namespace LFQueue

variable {T : Type}

/-- The constructor fills the vector with default objects. -/
def init (size : UInt64) (default : T) : LFQueue T :=
  { store := fun _ => default, capacity := size.toNat }

/-- `getNextToWriteTo`, the slot. -/
def getNextToWriteTo (q : LFQueue T) : Nat := q.nextWriteIndex

/-- Writing through the pointer. -/
def write (q : LFQueue T) (i : Nat) (v : T) : LFQueue T :=
  { q with store := Function.update q.store i v }

/-- `updateNextToWriteTo`. -/
def updateNextToWriteTo (q : LFQueue T) : LFQueue T :=
  { q with
    nextWriteIndex := (q.nextWriteIndex + 1) % q.capacity
    storeSize := q.storeSize + 1 }

/-- `getNextToRead`, the slot, or `nullptr`. -/
def getNextToRead (q : LFQueue T) : Option Nat :=
  if q.nextReadIndex = q.nextWriteIndex then none else some q.nextReadIndex

/-- The `ASSERT` of `updateReadIndex`; the message ends with the number of the thread. -/
def checkSize (q : LFQueue T) : Except Fault Unit :=
  assert (q.storeSize ≠ 0) "Invalid store size: "

/-- `updateReadIndex`. -/
def updateReadIndex (q : LFQueue T) : Except Fault (LFQueue T) := do
  q.checkSize
  return { q with
    nextReadIndex := (q.nextReadIndex + 1) % q.capacity
    storeSize := q.storeSize - 1 }

/-- What the producers of the repository do with an element. -/
def push (q : LFQueue T) (v : T) : LFQueue T :=
  (q.write q.getNextToWriteTo v).updateNextToWriteTo

end LFQueue

/-! ## The two threads -/

/-- Where the producer is: the next access it makes, and what it holds. -/
inductive WriterPc (T : Type) where
  /-- `getNextToWriteTo`. -/
  | loadSlot
  /-- `*next_write = …`. -/
  | writeSlot (i : Nat)
  /-- `updateNextToWriteTo`, whose element is in its slot. -/
  | loadIndex (v : T)
  | storeIndex (v : T) (i : Nat)
  /-- `store_size_++`. -/
  | addSize

/-- The producer is at the last access of its element. -/
def WriterPc.isLast {T : Type} : WriterPc T → Bool
  | .addSize => true
  | _ => false

@[simp] theorem WriterPc.isLast_loadSlot {T : Type} :
    (WriterPc.loadSlot : WriterPc T).isLast = false :=
  rfl

/-- The producer is idle, or at this element. -/
def WriterPc.Serves {T : Type} (pc : WriterPc T) (current : Option T) : Prop :=
  pc = .loadSlot ∨ ∃ v, current = some v ∧
    (∀ w, pc = .loadIndex w → w = v) ∧ ∀ w i, pc = .storeIndex w i → w = v

theorem WriterPc.Serves.idle {T : Type} {pc : WriterPc T} (h : pc.Serves none) :
    pc = .loadSlot := by
  rcases h with h | ⟨v, hv, -⟩
  · exact h
  · exact absurd hv (by simp)

/-- Where the consumer is. -/
inductive ReaderPc where
  /-- `getNextToRead`: both indices, and the first one again for the address. -/
  | loadRead
  | loadWrite (r : Nat)
  | loadSlot
  /-- `size()`, with the pointer that was found. -/
  | loadSize (found : Option Nat)
  /-- The body of the loop. -/
  | use (i : Nat)
  /-- `updateReadIndex`. -/
  | loadIndex
  | storeIndex (i : Nat)
  /-- The `ASSERT`. -/
  | checkSize
  /-- `store_size_--`. -/
  | subSize

/-- The two ways the repository reads a queue. -/
inductive ConsumerLoop where
  /-- `MatchingEngine::run`, `OrderGateway::run`. -/
  | pointer
  /-- `OrderServer::run`, `MarketDataPublisher::run`, `SnapshotSynthesizer::run`, the logger. -/
  | size
  deriving DecidableEq

/-- Where a loop goes with what `getNextToRead` returned. -/
def ReaderPc.found (loop : ConsumerLoop) (p : Option Nat) : ReaderPc :=
  match loop, p with
  | .size, p => .loadSize p
  | .pointer, none => .loadRead
  | .pointer, some i => .use i

/-- A queue between its threads, and what has gone through it. -/
structure QueueRun (T : Type) where
  queue : LFQueue T
  writer : WriterPc T := .loadSlot
  reader : ReaderPc := .loadRead
  /-- What the producer has published, by advancing its index. -/
  emitted : List T := []
  /-- What the consumer has used. -/
  taken : List T := []
  /-- How many elements the consumer has advanced over. -/
  advanced : Nat := 0

namespace QueueRun

variable {T : Type}

/-- One access of the producer, which has the element `v` to write. -/
def writerStep (x : QueueRun T) (v : T) : QueueRun T :=
  match x.writer with
  | .loadSlot => { x with writer := .writeSlot x.queue.getNextToWriteTo }
  | .writeSlot i => { x with queue := x.queue.write i v, writer := .loadIndex v }
  | .loadIndex v => { x with writer := .storeIndex v x.queue.nextWriteIndex }
  | .storeIndex v i =>
    { x with
      queue := { x.queue with nextWriteIndex := (i + 1) % x.queue.capacity }
      writer := .addSize
      emitted := x.emitted ++ [v] }
  | .addSize =>
    { x with
      queue := { x.queue with storeSize := x.queue.storeSize + 1 }
      writer := .loadSlot }

/-- One access of the consumer. -/
def readerStep (loop : ConsumerLoop) (x : QueueRun T) : Except Fault (QueueRun T) :=
  match x.reader with
  | .loadRead => .ok { x with reader := .loadWrite x.queue.nextReadIndex }
  | .loadWrite r =>
    if r = x.queue.nextWriteIndex then .ok { x with reader := ReaderPc.found loop none }
    else .ok { x with reader := .loadSlot }
  | .loadSlot => .ok { x with reader := ReaderPc.found loop (some x.queue.nextReadIndex) }
  | .loadSize found =>
    if x.queue.storeSize = 0 then .ok { x with reader := .loadRead }
    else
      match found with
      | none => .ok { x with reader := .loadRead }
      | some i => .ok { x with reader := .use i }
  | .use i => .ok { x with taken := x.taken ++ [x.queue.store i], reader := .loadIndex }
  | .loadIndex => .ok { x with reader := .storeIndex x.queue.nextReadIndex }
  | .storeIndex i =>
    .ok { x with
      queue := { x.queue with nextReadIndex := (i + 1) % x.queue.capacity }
      reader := .checkSize
      advanced := x.advanced + 1 }
  | .checkSize => do
    x.queue.checkSize
    return { x with reader := .subSize }
  | .subSize =>
    .ok { x with
      queue := { x.queue with storeSize := x.queue.storeSize - 1 }
      reader := .loadRead }

/-- Whose turn it is. -/
inductive Turn (T : Type) where
  | writer (v : T)
  | reader

/-- One access of one of the threads. -/
def step (loop : ConsumerLoop) (x : QueueRun T) : Turn T → Except Fault (QueueRun T)
  | .writer v => .ok (x.writerStep v)
  | .reader => x.readerStep loop

def Next (loop : ConsumerLoop) (x : QueueRun T) (t : Turn T) (x' : QueueRun T) : Prop :=
  x.step loop t = .ok x'

/-- A new queue. -/
def start (size : UInt64) (default : T) : QueueRun T := { queue := .init size default }

/-- The elements that are published and not advanced over. -/
def unread (x : QueueRun T) : Nat := x.emitted.length - x.advanced

/-! ## The invariant -/

/-- The elements that are counted in: the last one is not while the producer is about to. -/
def added (x : QueueRun T) : Nat :=
  match x.writer with
  | .addSize => x.emitted.length - 1
  | _ => x.emitted.length

/-- The elements that are counted out. -/
def subtracted (x : QueueRun T) : Nat :=
  match x.reader with
  | .checkSize => x.advanced - 1
  | .subSize => x.advanced - 1
  | _ => x.advanced

/-- What the producer knows where it is. -/
def WriterFacts (x : QueueRun T) : Prop :=
  match x.writer with
  | .loadSlot => True
  | .writeSlot i => i = x.queue.nextWriteIndex
  | .loadIndex v => x.queue.store x.queue.nextWriteIndex = v
  | .storeIndex v i => x.queue.store x.queue.nextWriteIndex = v ∧ i = x.queue.nextWriteIndex
  | .addSize => 0 < x.emitted.length

/-- There is an element, and a loop that looks at the count has seen it counted. -/
def Found (loop : ConsumerLoop) (x : QueueRun T) : Prop :=
  x.advanced < x.emitted.length ∧ (loop = .size → 0 < x.queue.storeSize.toNat)

/-- What the consumer knows where it is. -/
def ReaderFacts (loop : ConsumerLoop) (x : QueueRun T) : Prop :=
  match x.reader with
  | .loadRead => True
  | .loadWrite r => r = x.queue.nextReadIndex
  | .loadSlot => x.advanced < x.emitted.length
  | .loadSize none => True
  | .loadSize (some i) => i = x.queue.nextReadIndex ∧ x.advanced < x.emitted.length
  | .use i => i = x.queue.nextReadIndex ∧ x.Found loop
  | .loadIndex => x.Found loop
  | .storeIndex i => i = x.queue.nextReadIndex ∧ x.Found loop
  | .checkSize => 0 < x.advanced ∧ (loop = .size → 0 < x.queue.storeSize.toNat)
  | .subSize => 0 < x.advanced ∧ 0 < x.queue.storeSize.toNat

/-- How much of what was emitted has been used: one more between the use and the advance. -/
def used (x : QueueRun T) : Nat :=
  match x.reader with
  | .loadIndex => x.advanced + 1
  | .storeIndex _ => x.advanced + 1
  | _ => x.advanced

/-- **The invariant.**  Indices and count are those of what went through, there is room in the ring,
and every unread element is in its slot. -/
structure Coherent (loop : ConsumerLoop) (x : QueueRun T) : Prop where
  bound : x.queue.capacity < 2 ^ 64
  write : x.queue.nextWriteIndex = x.emitted.length % x.queue.capacity
  read : x.queue.nextReadIndex = x.advanced % x.queue.capacity
  le : x.advanced ≤ x.emitted.length
  room : x.emitted.length < x.advanced + x.queue.capacity
  slots : ∀ k (h : k < x.emitted.length), x.advanced ≤ k →
    x.queue.store (k % x.queue.capacity) = x.emitted[k]
  size : x.queue.storeSize.toNat + x.subtracted = x.added
  taken : x.taken = x.emitted.take x.used
  writer : x.WriterFacts
  reader : x.ReaderFacts loop

variable {loop : ConsumerLoop} {x x' : QueueRun T}

theorem coherent_start (loop : ConsumerLoop) {size : UInt64} (h : 0 < size) (default : T) :
    (start size default).Coherent loop where
  bound := size.toNat_lt
  write := (Nat.zero_mod _).symm
  read := (Nat.zero_mod _).symm
  le := Nat.le_refl _
  room := by
    change 0 < 0 + size.toNat
    rw [Nat.zero_add]
    exact UInt64.lt_iff_toNat_lt.1 h
  slots := fun _ h => absurd h (Nat.not_lt_zero _)
  size := rfl
  taken := rfl
  writer := trivial
  reader := trivial

/-- Counts less than a capacity apart have different slots. -/
theorem eq_of_mod_eq {a b n : Nat} (hle : a ≤ b) (hlt : b < a + n) (h : a % n = b % n) : a = b := by
  have hzero := Nat.sub_mod_eq_zero_of_mod_eq h.symm
  rw [Nat.mod_eq_of_lt (by omega)] at hzero
  omega

/-- The ring reads as empty exactly when nothing is unread. -/
theorem Coherent.empty_iff (h : x.Coherent loop) :
    x.queue.nextReadIndex = x.queue.nextWriteIndex ↔ x.advanced = x.emitted.length := by
  rw [h.read, h.write]
  exact ⟨eq_of_mod_eq h.le h.room, fun heq => by rw [heq]⟩

/-- The slot that is written is none of the unread ones. -/
theorem Coherent.free (h : x.Coherent loop) {k : Nat} (hk : k < x.emitted.length)
    (hle : x.advanced ≤ k) : k % x.queue.capacity ≠ x.queue.nextWriteIndex := by
  have hroom := h.room
  rw [h.write]
  intro heq
  exact absurd (eq_of_mod_eq (by omega) (by omega) heq) (by omega)

theorem le_subtracted (x : QueueRun T) : x.advanced ≤ x.subtracted + 1 := by
  rw [subtracted]
  split <;> omega

/-- The count has room for one more. -/
theorem Coherent.storeSize_lt (h : x.Coherent loop) (hw : x.writer = .addSize) :
    x.queue.storeSize.toNat + 1 < 2 ^ 64 := by
  have hsize := h.size
  have hsub := x.le_subtracted
  have hroom := h.room
  have hbound := h.bound
  have hpos := h.writer
  rw [added, hw] at hsize
  rw [WriterFacts, hw] at hpos
  dsimp only at hsize hpos
  omega

theorem Coherent.used_le (h : x.Coherent loop) : x.used ≤ x.emitted.length := by
  have hfacts := h.reader
  rw [used]
  rw [ReaderFacts] at hfacts
  split
  · next hr =>
    rw [hr] at hfacts
    exact hfacts.1
  · next i hr =>
    rw [hr] at hfacts
    exact hfacts.2.1
  · exact h.le

/-- The producer only adds to what the consumer knows. -/
theorem ReaderFacts.mono (h : x.ReaderFacts loop) (hreader : x'.reader = x.reader)
    (hread : x'.queue.nextReadIndex = x.queue.nextReadIndex) (hadv : x'.advanced = x.advanced)
    (hemitted : x.emitted.length ≤ x'.emitted.length)
    (hsize : x.queue.storeSize.toNat ≤ x'.queue.storeSize.toNat) : x'.ReaderFacts loop := by
  rw [ReaderFacts] at h ⊢
  rw [hreader]
  have hfound : x.Found loop → x'.Found loop := fun hf =>
    ⟨by rw [hadv]; exact Nat.lt_of_lt_of_le hf.1 hemitted,
      fun hl => Nat.lt_of_lt_of_le (hf.2 hl) hsize⟩
  cases hr : x.reader with
  | loadRead => trivial
  | loadWrite r => rw [hr] at h; exact h.trans hread.symm
  | loadSlot => rw [hr] at h; exact hadv ▸ Nat.lt_of_lt_of_le h hemitted
  | loadSize found =>
    rw [hr] at h
    cases found with
    | none => trivial
    | some i => exact ⟨h.1.trans hread.symm, hadv ▸ Nat.lt_of_lt_of_le h.2 hemitted⟩
  | use i => rw [hr] at h; exact ⟨h.1.trans hread.symm, hfound h.2⟩
  | loadIndex => rw [hr] at h; exact hfound h
  | storeIndex i => rw [hr] at h; exact ⟨h.1.trans hread.symm, hfound h.2⟩
  | checkSize =>
    rw [hr] at h
    exact ⟨hadv ▸ h.1, fun hl => Nat.lt_of_lt_of_le (h.2 hl) hsize⟩
  | subSize => rw [hr] at h; exact ⟨hadv ▸ h.1, Nat.lt_of_lt_of_le h.2 hsize⟩

/-! ## One access -/

/-- Before it advances its index the producer needs two free slots: the one it has written, and one
that keeps the indices apart. -/
def HasRoom (x : QueueRun T) : Turn T → Prop
  | .writer _ => ∀ v i, x.writer = .storeIndex v i → x.unread + 1 < x.queue.capacity
  | .reader => True

/-- The producer advances its index: the element in its slot is the last unread one. -/
theorem Coherent.publish (h : x.Coherent loop) {w : T} {i : Nat} (hw : x.writer = .storeIndex w i)
    (hroom : x.unread + 1 < x.queue.capacity) :
    { x with
      queue := { x.queue with nextWriteIndex := (i + 1) % x.queue.capacity }
      writer := .addSize
      emitted := x.emitted ++ [w] : QueueRun T }.Coherent loop := by
  have hfacts := h.writer
  have hsize := h.size
  have hle := h.le
  have hused := h.used_le
  rw [WriterFacts, hw] at hfacts
  rw [added, hw] at hsize
  rw [unread] at hroom
  obtain ⟨hslot, rfl⟩ := hfacts
  have hlen : (x.emitted ++ [w]).length = x.emitted.length + 1 := List.length_append
  refine ⟨h.bound, ?_, h.read, ?_, ?_, fun k hk hk' => ?_, ?_, ?_, ?_, ?_⟩
  · dsimp only
    rw [hlen, h.write, Nat.mod_add_mod]
  · dsimp only
    omega
  · dsimp only
    omega
  · dsimp only at hk hk' ⊢
    rcases Nat.lt_or_ge k x.emitted.length with hlt | hge
    · rw [List.getElem_append_left hlt]
      exact h.slots k hlt hk'
    · obtain rfl : k = x.emitted.length := by omega
      rw [List.getElem_append_right hge, ← h.write, hslot]
      simp
  · change x.queue.storeSize.toNat + x.subtracted = (x.emitted ++ [w]).length - 1
    rw [hlen, hsize]
    rfl
  · change x.taken = (x.emitted ++ [w]).take x.used
    rw [List.take_append_of_le_length hused, h.taken]
  · change 0 < (x.emitted ++ [w]).length
    omega
  · exact h.reader.mono rfl rfl rfl (by dsimp only; omega) (Nat.le_refl _)

/-- The producer adds to the count. -/
theorem Coherent.count (h : x.Coherent loop) (hw : x.writer = .addSize) :
    { x with
      queue := { x.queue with storeSize := x.queue.storeSize + 1 }
      writer := .loadSlot : QueueRun T }.Coherent loop := by
  have hfacts := h.writer
  have hsize := h.size
  have hlt := h.storeSize_lt hw
  have hnat : (x.queue.storeSize + 1).toNat = x.queue.storeSize.toNat + 1 := by
    rw [UInt64.toNat_add]
    exact Nat.mod_eq_of_lt hlt
  rw [WriterFacts, hw] at hfacts
  rw [added, hw] at hsize
  refine ⟨h.bound, h.write, h.read, h.le, h.room, h.slots, ?_, h.taken, trivial, ?_⟩
  · change (x.queue.storeSize + 1).toNat + x.subtracted = x.emitted.length
    dsimp only at hsize hfacts
    omega
  · exact h.reader.mono rfl rfl rfl (Nat.le_refl _) (by dsimp only; omega)

theorem Coherent.writerStep (h : x.Coherent loop) (v : T) (hroom : x.HasRoom (.writer v)) :
    (x.writerStep v).Coherent loop := by
  have hfacts := h.writer
  have hsize := h.size
  have hreader := h.reader
  have htaken := h.taken
  rw [QueueRun.writerStep]
  rw [WriterFacts] at hfacts
  rw [added] at hsize
  cases hw : x.writer with
  | loadSlot =>
    rw [hw] at hsize
    exact { h with size := hsize, writer := rfl, reader := hreader, taken := htaken }
  | writeSlot i =>
    rw [hw] at hfacts hsize
    obtain rfl := hfacts
    refine { h with slots := fun k hk hle => ?_, size := hsize, writer := ?_, .. }
    · exact (Function.update_of_ne (h.free hk hle) _ _).trans (h.slots k hk hle)
    · exact Function.update_self _ _ _
  | loadIndex w =>
    rw [hw] at hfacts hsize
    exact { h with size := hsize, writer := ⟨hfacts, rfl⟩, reader := hreader, taken := htaken }
  | storeIndex w i => exact h.publish hw (hroom w i hw)
  | addSize => exact h.count hw

theorem toNat_pos_of_ne {n : UInt64} (h : n ≠ 0) : 0 < n.toNat :=
  Nat.pos_of_ne_zero fun hn => h (UInt64.toNat_inj.1 hn)

/-- Accesses that only move the consumer within its loop. -/
theorem Coherent.move (h : x.Coherent loop) (pc : ReaderPc)
    (hsub : { x with reader := pc }.subtracted = x.subtracted)
    (hused : { x with reader := pc }.used = x.used)
    (hfacts : { x with reader := pc }.ReaderFacts loop) :
    { x with reader := pc }.Coherent loop :=
  { h with
    size := by rw [hsub]; exact h.size
    taken := by rw [hused]; exact h.taken
    writer := h.writer
    reader := hfacts }

/-- The consumer uses its slot: it has the first of the unread elements. -/
theorem Coherent.use (h : x.Coherent loop) {i : Nat} (hr : x.reader = .use i) :
    { x with taken := x.taken ++ [x.queue.store i], reader := .loadIndex }.Coherent loop := by
  have hfacts := h.reader
  have hsize := h.size
  have htaken := h.taken
  rw [ReaderFacts, hr] at hfacts
  rw [subtracted, hr] at hsize
  rw [used, hr] at htaken
  obtain ⟨rfl, hfound⟩ := hfacts
  refine { h with size := hsize, taken := ?_, writer := h.writer, reader := hfound }
  have hslot := h.slots x.advanced hfound.1 (Nat.le_refl _)
  rw [← h.read] at hslot
  change x.taken ++ [x.queue.store x.queue.nextReadIndex] = x.emitted.take (x.advanced + 1)
  rw [htaken, hslot]
  exact List.take_append_getElem hfound.1

/-- The consumer advances its index. -/
theorem Coherent.advance (h : x.Coherent loop) {i : Nat} (hr : x.reader = .storeIndex i) :
    { x with
      queue := { x.queue with nextReadIndex := (i + 1) % x.queue.capacity }
      reader := .checkSize
      advanced := x.advanced + 1 : QueueRun T }.Coherent loop := by
  have hfacts := h.reader
  have hsize := h.size
  have htaken := h.taken
  have hroom := h.room
  rw [ReaderFacts, hr] at hfacts
  rw [subtracted, hr] at hsize
  rw [used, hr] at htaken
  obtain ⟨rfl, hlt, hcounted⟩ := hfacts
  refine ⟨h.bound, h.write, ?_, hlt, ?_, fun k hk hk' => ?_, hsize, htaken, h.writer, ?_⟩
  · dsimp only
    rw [h.read, Nat.mod_add_mod]
  · dsimp only
    omega
  · exact h.slots k hk (Nat.le_of_succ_le hk')
  · exact ⟨Nat.succ_pos _, hcounted⟩

/-- The consumer subtracts from the count. -/
theorem Coherent.subtract (h : x.Coherent loop) (hr : x.reader = .subSize) :
    { x with
      queue := { x.queue with storeSize := x.queue.storeSize - 1 }
      reader := .loadRead : QueueRun T }.Coherent loop := by
  have hfacts := h.reader
  have hsize := h.size
  have htaken := h.taken
  rw [ReaderFacts, hr] at hfacts
  rw [subtracted, hr] at hsize
  rw [used, hr] at htaken
  have hnat : (x.queue.storeSize - 1).toNat = x.queue.storeSize.toNat - 1 :=
    UInt64.toNat_sub_of_le _ _ (UInt64.le_iff_toNat_le.2 hfacts.2)
  refine { h with size := ?_, taken := htaken, writer := h.writer, reader := trivial }
  change (x.queue.storeSize - 1).toNat + x.advanced = x.added
  dsimp only at hsize hfacts
  omega

theorem Coherent.readerStep (h : x.Coherent loop) (hstep : x.readerStep loop = .ok x') :
    x'.Coherent loop := by
  have hfacts := h.reader
  rw [ReaderFacts] at hfacts
  rw [QueueRun.readerStep] at hstep
  cases hr : x.reader with
  | loadRead =>
    rw [hr] at hstep
    obtain rfl := Except.ok.inj hstep
    exact h.move _ (by simp [subtracted, hr]) (by simp [used, hr]) rfl
  | loadWrite r =>
    rw [hr] at hstep hfacts
    dsimp only at hstep hfacts
    split at hstep
    · obtain rfl := Except.ok.inj hstep
      cases loop <;> exact h.move _ (by simp [subtracted, hr, ReaderPc.found])
        (by simp [used, hr, ReaderPc.found]) trivial
    · next hne =>
      obtain rfl := Except.ok.inj hstep
      refine h.move _ (by simp [subtracted, hr]) (by simp [used, hr]) ?_
      -- the indices differ, so something is unread
      exact Nat.lt_of_le_of_ne h.le fun heq => hne (hfacts.trans (h.empty_iff.2 heq))
  | loadSlot =>
    rw [hr] at hstep hfacts
    obtain rfl := Except.ok.inj hstep
    cases loop with
    | pointer =>
      exact h.move _ (by simp [subtracted, hr, ReaderPc.found])
        (by simp [used, hr, ReaderPc.found]) ⟨rfl, hfacts, fun hl => nomatch hl⟩
    | size =>
      exact h.move _ (by simp [subtracted, hr, ReaderPc.found])
        (by simp [used, hr, ReaderPc.found]) ⟨rfl, hfacts⟩
  | loadSize found =>
    rw [hr] at hstep hfacts
    dsimp only at hstep
    split at hstep
    · obtain rfl := Except.ok.inj hstep
      exact h.move _ (by simp [subtracted, hr]) (by simp [used, hr]) trivial
    · next hne =>
      cases found with
      | none =>
        obtain rfl := Except.ok.inj hstep
        exact h.move _ (by simp [subtracted, hr]) (by simp [used, hr]) trivial
      | some i =>
        obtain rfl := Except.ok.inj hstep
        exact h.move _ (by simp [subtracted, hr]) (by simp [used, hr])
          ⟨hfacts.1, hfacts.2, fun _ => toNat_pos_of_ne hne⟩
  | use i =>
    rw [hr] at hstep
    obtain rfl := Except.ok.inj hstep
    exact h.use hr
  | loadIndex =>
    rw [hr] at hstep hfacts
    obtain rfl := Except.ok.inj hstep
    exact h.move _ (by simp [subtracted, hr]) (by simp [used, hr]) ⟨rfl, hfacts⟩
  | storeIndex i =>
    rw [hr] at hstep
    obtain rfl := Except.ok.inj hstep
    exact h.advance hr
  | checkSize =>
    rw [hr] at hstep hfacts
    obtain ⟨_, hcheck, hstep⟩ := bind_eq_ok.1 hstep
    obtain rfl := Except.ok.inj hstep
    exact h.move _ (by simp [subtracted, hr]) (by simp [used, hr])
      ⟨hfacts.1, toNat_pos_of_ne (assert_eq_ok.1 hcheck)⟩
  | subSize =>
    rw [hr] at hstep
    obtain rfl := Except.ok.inj hstep
    exact h.subtract hr

theorem Coherent.next (h : x.Coherent loop) {t : Turn T} (hroom : x.HasRoom t)
    (hn : x.Next loop t x') : x'.Coherent loop := by
  cases t with
  | writer v =>
    obtain rfl := Except.ok.inj hn
    exact h.writerStep v hroom
  | reader => exact h.readerStep hn

/-! ## The count -/

/-- The count is not `0` where `updateReadIndex` looks at it, nor where it is taken down. -/
def NeverZero (x : QueueRun T) : Turn T → Prop
  | .writer _ => True
  | .reader => (x.reader = .checkSize → x.queue.storeSize ≠ 0) ∧
    (x.reader = .subSize → x.queue.storeSize ≠ 0)

/-- The condition: the consumer looked at the count before, or does not check it while the producer
is about to count in the very element that was taken. -/
def CountedIn (loop : ConsumerLoop) (x : QueueRun T) : Turn T → Prop
  | .writer _ => True
  | .reader => x.reader = .checkSize → loop = .size ∨ x.writer ≠ .addSize ∨
    x.queue.nextReadIndex ≠ x.queue.nextWriteIndex

theorem Coherent.neverZero_iff (h : x.Coherent loop) (t : Turn T) :
    x.NeverZero t ↔ x.CountedIn loop t := by
  cases t with
  | writer v => exact Iff.rfl
  | reader =>
    have hsize := h.size
    have hfacts := h.reader
    have hle := h.le
    have hempty := h.empty_iff
    have hzero : x.queue.storeSize = 0 ↔ x.queue.storeSize.toNat = 0 := UInt64.toNat_inj.symm
    rw [subtracted, added] at hsize
    rw [ReaderFacts] at hfacts
    refine ⟨fun hgood hr => ?_, fun hcond => ⟨fun hr => ?_, fun hr => ?_⟩⟩
    · have hne := hgood.1 hr
      rw [hr] at hsize hfacts
      by_contra hno
      obtain ⟨-, hno⟩ := not_or.1 hno
      obtain ⟨hw, heq⟩ := not_or.1 hno
      rw [not_not.1 hw] at hsize
      have hall := hempty.1 (not_not.1 heq)
      dsimp only at hsize hfacts
      exact hne (hzero.2 (by omega))
    · rw [hr] at hsize hfacts
      rcases hcond hr with hloop | hw | hne
      · exact fun hn => absurd (hfacts.2 hloop) (by rw [hzero.1 hn]; exact Nat.lt_irrefl 0)
      · have hcount : x.queue.storeSize.toNat + (x.advanced - 1) = x.emitted.length := by
          cases hpc : x.writer with
          | addSize => exact absurd hpc hw
          | _ => rwa [hpc] at hsize
        dsimp only at hfacts
        exact fun hn => absurd (hzero.1 hn) (by omega)
      · have hlt : x.advanced < x.emitted.length :=
          Nat.lt_of_le_of_ne hle fun heq => hne (hempty.2 heq)
        dsimp only at hsize hfacts
        intro hn
        have hn := hzero.1 hn
        split at hsize <;> omega
    · rw [hr] at hfacts
      exact fun hn => absurd hfacts.2 (by rw [hzero.1 hn]; exact Nat.lt_irrefl 0)

/-- **The `ASSERT` is unreachable** exactly in the runs in which a consumer that does not look at
the count never checks it between the producer's advance and its count. -/
theorem along_neverZero_iff (loop : ConsumerLoop) {size : UInt64} (hsize : 0 < size) (default : T)
    {turns : List (Turn T)} (hroom : Run.Along (Next loop) HasRoom (start size default) turns) :
    Run.Along (Next loop) NeverZero (start size default) turns ↔
      Run.Along (Next loop) (CountedIn loop) (start size default) turns :=
  Run.along_congr (Coherent loop) HasRoom (fun _ t h _ => h.neverZero_iff t)
    (fun _ _ _ h hr _ hn => h.next hr hn) (coherent_start loop hsize default) hroom

/-! ## Elements -/

/-- Nothing is lost: what was used is the beginning of what was published, every other element waits
in its slot, and the ring does not read as empty while there is one. -/
structure Lossless (x : QueueRun T) : Prop where
  inOrder : x.taken <+: x.emitted
  once : x.taken.length = x.used
  waiting : ∀ k (h : k < x.emitted.length), x.advanced ≤ k →
    x.queue.store ((x.queue.nextReadIndex + (k - x.advanced)) % x.queue.capacity) = x.emitted[k]
  nonempty : x.queue.nextReadIndex = x.queue.nextWriteIndex → x.advanced = x.emitted.length

/-- The slot the producer is about to write has no unread element. -/
def WritesFree (x : QueueRun T) : Prop :=
  ∀ i, x.writer = .writeSlot i → ∀ k, x.advanced ≤ k → k < x.emitted.length →
    (x.queue.nextReadIndex + (k - x.advanced)) % x.queue.capacity ≠ i

theorem Coherent.slot (h : x.Coherent loop) {k : Nat} (hk : x.advanced ≤ k) :
    (x.queue.nextReadIndex + (k - x.advanced)) % x.queue.capacity = k % x.queue.capacity := by
  rw [h.read, Nat.mod_add_mod, Nat.add_sub_cancel' hk]

theorem Coherent.lossless (h : x.Coherent loop) : x.Lossless where
  inOrder := h.taken ▸ List.take_prefix _ _
  once := by rw [h.taken, List.length_take_of_le h.used_le]
  waiting := fun k hk hle => by rw [h.slot hle]; exact h.slots k hk hle
  nonempty := h.empty_iff.1

theorem Coherent.writesFree (h : x.Coherent loop) : x.WritesFree := by
  intro i hi k hle hk
  have hfacts := h.writer
  rw [WriterFacts, hi] at hfacts
  rw [h.slot hle, show i = x.queue.nextWriteIndex from hfacts]
  exact h.free hk hle

/-- **An access of the producer** loses nothing exactly when it leaves the indices apart. -/
theorem Coherent.writer_lossless_iff (h : x.Coherent loop) (v : T) :
    (x.writerStep v).Lossless ↔ x.HasRoom (.writer v) := by
  refine ⟨fun hgood w i hw => ?_, fun hroom => (h.writerStep v hroom).lossless⟩
  have hle := h.le
  have hroom := h.room
  have hempty := hgood.nonempty
  have hi := h.writer
  rw [WriterFacts, hw] at hi
  obtain ⟨-, rfl⟩ := hi
  rw [QueueRun.writerStep, hw] at hempty
  dsimp only at hempty
  rw [List.length_append, List.length_singleton, h.write, Nat.mod_add_mod, h.read] at hempty
  rw [unread]
  by_contra hfull
  have hnext : x.emitted.length + 1 = x.advanced + x.queue.capacity := by omega
  rw [hnext, Nat.add_mod_right] at hempty
  have heq := hempty rfl
  omega

/-- A consumer that looks at the count is never stopped. -/
theorem Coherent.reader_ok (h : x.Coherent .size) : ∃ x', x.readerStep .size = .ok x' := by
  have hfacts := h.reader
  rw [ReaderFacts] at hfacts
  rw [QueueRun.readerStep]
  cases hr : x.reader with
  | loadWrite r =>
    dsimp only
    split <;> exact ⟨_, rfl⟩
  | loadSize found =>
    dsimp only
    split
    · exact ⟨_, rfl⟩
    · cases found <;> exact ⟨_, rfl⟩
  | checkSize =>
    rw [hr] at hfacts
    have hne : x.queue.storeSize ≠ 0 := fun hn =>
      absurd (hfacts.2 rfl) (by rw [hn]; exact Nat.lt_irrefl 0)
    dsimp only
    rw [LFQueue.checkSize, assert_of hne]
    exact ⟨_, rfl⟩
  | _ => exact ⟨_, rfl⟩

/-- A producer that is not disturbed does what `push` does. -/
theorem push_of_writerStep {x : QueueRun T} (h : x.writer = .loadSlot) (v : T) :
    (((((x.writerStep v).writerStep v).writerStep v).writerStep v).writerStep v).queue =
      x.queue.push v := by
  cases x
  dsimp only at h
  subst h
  rfl

/-! ### The producer at its element -/

theorem writerStep_of_isLast (h : x.writer.isLast = true) (v : T) :
    (x.writerStep v).writer = .loadSlot ∧ (x.writerStep v).emitted = x.emitted := by
  rw [writerStep]
  cases hw : x.writer with
  | addSize => exact ⟨rfl, rfl⟩
  | _ => simp [hw, WriterPc.isLast] at h

/-- An access before the last one: the element is published now, or still to be. -/
theorem writerStep_of_serves {v : T} (h : x.writer.Serves (some v))
    (hlast : x.writer.isLast = false) : (x.writerStep v).writer.Serves (some v) ∧
      (x.writerStep v).emitted ++ (if (x.writerStep v).writer.isLast then [] else [v]) =
        x.emitted ++ [v] := by
  have hv : ∀ w, x.writer = .loadIndex w ∨ (∃ i, x.writer = .storeIndex w i) → w = v := by
    rintro w hw
    rcases h with hidle | ⟨v', hcurrent, hload, hstore⟩
    · rcases hw with hw | ⟨i, hw⟩ <;> rw [hidle] at hw <;> cases hw
    · obtain rfl := Option.some.inj hcurrent
      rcases hw with hw | ⟨i, hw⟩
      · exact hload w hw
      · exact hstore w i hw
  rw [writerStep]
  cases hw : x.writer with
  | loadSlot => exact ⟨.inr ⟨v, rfl, nofun, nofun⟩, rfl⟩
  | writeSlot i => exact ⟨.inr ⟨v, rfl, fun w hw => by cases hw; rfl, nofun⟩, rfl⟩
  | loadIndex w =>
    obtain rfl := hv w (.inl hw)
    exact ⟨.inr ⟨w, rfl, nofun, fun w' i hw' => by cases hw'; rfl⟩, rfl⟩
  | storeIndex w i =>
    obtain rfl := hv w (.inr ⟨i, hw⟩)
    exact ⟨.inr ⟨w, rfl, nofun, nofun⟩, List.append_nil _⟩
  | addSize => simp [hw, WriterPc.isLast] at hlast

/-- An access at any place: whatever is to be published after `v` is so still, and `v` before it as
long as the producer is not through. -/
theorem writerStep_sends {v : T} {rest all : List T} (h : x.writer.Serves (some v))
    (hall : all = x.emitted ++ if x.writer.isLast then rest else v :: rest) :
    (x.writerStep v).writer.Serves (if x.writer.isLast then none else some v) ∧
      all = (x.writerStep v).emitted ++
        if x.writer.isLast || (x.writerStep v).writer.isLast then rest else v :: rest := by
  cases hlast : x.writer.isLast with
  | true =>
    obtain ⟨hpc, hemitted⟩ := writerStep_of_isLast hlast v
    rw [hlast] at hall
    exact ⟨.inl hpc, hemitted ▸ hall⟩
  | false =>
    obtain ⟨hserves, hemitted⟩ := writerStep_of_serves h hlast
    rw [hlast] at hall
    refine ⟨hserves, ?_⟩
    calc all = (x.emitted ++ [v]) ++ rest := by rw [hall]; exact (List.append_assoc _ [v] rest).symm
      _ = ((x.writerStep v).emitted ++
            if (x.writerStep v).writer.isLast then [] else [v]) ++ rest := by
        rw [hemitted]
      _ = _ := by
        rw [List.append_assoc]
        cases (x.writerStep v).writer.isLast <;> rfl

/-! ### Short runs -/

/-- The consumer leaves the producer's side as it is. -/
theorem readerStep_frame (h : x.readerStep loop = .ok x') :
    x'.writer = x.writer ∧ x'.emitted = x.emitted ∧ x'.queue.capacity = x.queue.capacity := by
  rw [readerStep] at h
  cases hr : x.reader with
  | loadWrite r =>
    rw [hr] at h
    dsimp only at h
    split at h <;> obtain rfl := Except.ok.inj h <;> exact ⟨rfl, rfl, rfl⟩
  | loadSize found =>
    rw [hr] at h
    dsimp only at h
    split at h
    · obtain rfl := Except.ok.inj h
      exact ⟨rfl, rfl, rfl⟩
    · cases found <;> obtain rfl := Except.ok.inj h <;> exact ⟨rfl, rfl, rfl⟩
  | checkSize =>
    rw [hr] at h
    obtain ⟨_, -, h⟩ := bind_eq_ok.1 h
    obtain rfl := Except.ok.inj h
    exact ⟨rfl, rfl, rfl⟩
  | _ =>
    rw [hr] at h
    obtain rfl := Except.ok.inj h
    exact ⟨rfl, rfl, rfl⟩

theorem writerStep_emitted (x : QueueRun T) (v : T) :
    (x.writerStep v).emitted.length ≤ x.emitted.length + 1 ∧
      (x.writerStep v).queue.capacity = x.queue.capacity := by
  rw [writerStep]
  split
  case h_4 => exact ⟨Nat.le_of_eq List.length_append, rfl⟩
  all_goals exact ⟨Nat.le_succ _, rfl⟩

/-- A run of fewer turns than there are slots finds room. -/
theorem along_hasRoom (loop : ConsumerLoop) (turns : List (Turn T)) {x : QueueRun T}
    (h : x.emitted.length + turns.length < x.queue.capacity) :
    Run.Along (Next loop) HasRoom x turns := by
  induction turns generalizing x with
  | nil => trivial
  | cons t turns ih =>
    rw [List.length_cons] at h
    refine ⟨?_, fun x' hn => ih ?_⟩
    · cases t with
      | writer v =>
        intro w i _
        rw [unread]
        omega
      | reader => trivial
    · cases t with
      | writer v =>
        obtain rfl := Except.ok.inj hn
        obtain ⟨hlen, hcap⟩ := x.writerStep_emitted v
        omega
      | reader =>
        obtain ⟨-, hemitted, hcap⟩ := readerStep_frame hn
        rw [hemitted, hcap]
        omega

/-- One element, and a consumer that looks at the count, turn about. -/
theorem along_neverZero_size :
    Run.Along (Next .size) NeverZero (start meMaxClientUpdates 0)
      (List.replicate 10 [.writer 5, .reader]).flatten := by
  refine (along_neverZero_iff .size (by decide) 0 (along_hasRoom _ _ (by decide))).2 ?_
  refine Run.along_of_forall (fun x t => ?_) _ _
  cases t with
  | writer v => trivial
  | reader => exact fun _ => .inl rfl

/-- The producer is one access from done and the consumer takes the element: the count is `0`. -/
theorem not_along_neverZero_pointer :
    ¬ ∀ (size : UInt64) (loop : ConsumerLoop) (turns : List (Turn Nat)), 0 < size →
      Run.Along (Next loop) HasRoom (start size 0) turns →
      Run.Along (Next loop) NeverZero (start size 0) turns := by
  intro h
  have hgood := h meMaxClientUpdates .pointer
    (List.replicate 4 (.writer 5) ++ List.replicate 6 .reader ++ [.reader]) (by decide)
    (along_hasRoom _ _ (by decide))
  exact (hgood.of_foldlM (fun _ _ _ hn => hn) rfl).1 rfl rfl

end QueueRun
end TradingEcosystem
