import TradingEcosystem.Common.QueueProducer

/-!
# A queue gets on

What the two threads of a queue have done, in accesses: five an element for the producer and five
for the consumer.  Every access of the producer is one of them.  An access of the consumer may also
be one of its looks at the indices and the count, of which there may be any number while there is
nothing to read (`readerStep_reads`).  But where an element waits and the producer is idle there are
at most five in a row, since each brings the consumer nearer to the element.
-/

set_option autoImplicit false

namespace TradingEcosystem
namespace QueueRun

variable {T : Type} {x x' x'' : QueueRun T} {loop : ConsumerLoop} {m n : Nat}

/-- The accesses of the producer, five an element, and one more: the last of the five comes after the
element is there. -/
def writes (x : QueueRun T) : Nat :=
  5 * x.emitted.length +
    match x.writer with
    | .addSize => 0
    | .loadSlot => 1
    | .writeSlot _ => 2
    | .loadIndex _ => 3
    | .storeIndex _ _ => 4

/-- The accesses of the consumer, five an element from its use on, and two more: the last of the five
come after the advance. -/
def reads (x : QueueRun T) : Nat :=
  5 * x.advanced +
    match x.reader with
    | .checkSize => 0
    | .subSize => 1
    | .loadIndex => 3
    | .storeIndex _ => 4
    | _ => 2

theorem writes_le (x : QueueRun T) : x.writes ≤ 5 * x.emitted.length + 4 := by
  rw [writes]
  split <;> omega

theorem reads_le (h : x.advanced ≤ x.emitted.length) : x.reads ≤ 5 * x.emitted.length + 4 := by
  rw [reads]
  split <;> omega

theorem writes_writerStep (x : QueueRun T) (v : T) : (x.writerStep v).writes = x.writes + 1 := by
  rw [writes, writes, writerStep]
  cases hw : x.writer with
  | storeIndex w i =>
    dsimp only
    rw [List.length_append, List.length_singleton]
    omega
  | _ => rfl

theorem reads_writerStep (x : QueueRun T) (v : T) : (x.writerStep v).reads = x.reads := by
  rw [writerStep]
  split <;> rfl

theorem writes_readerStep (h : x.readerStep loop = .ok x') : x'.writes = x.writes := by
  obtain ⟨hwriter, hemitted, -⟩ := readerStep_frame h
  rw [writes, writes, hwriter, hemitted]

theorem reads_use {i : Nat} (hr : x.reader = .use i) (h : x.readerStep loop = .ok x') :
    x'.reads = x.reads + 1 := by
  rw [readerStep, hr] at h
  obtain rfl := Except.ok.inj h
  simp [reads, hr]

/-- The looks between the consumer and an element that waits. -/
def distance (x : QueueRun T) : Nat :=
  match x.reader with
  | .loadSize none => 5
  | .loadRead => 4
  | .loadWrite _ => 3
  | .loadSlot => 2
  | .loadSize (some _) => 1
  | _ => 0

theorem distance_le (x : QueueRun T) : x.distance ≤ 5 := by
  rw [distance]
  split <;> decide

/-- There is an element and the producer is idle. -/
def Waiting (x : QueueRun T) : Prop := x.writer = .loadSlot ∧ x.advanced < x.emitted.length

/-- **Nothing is done** in so many accesses of the consumer but looking; where an element waits each
of them has been a step towards it. -/
structure Stands (x : QueueRun T) (looks : Nat) (x' : QueueRun T) : Prop where
  queue : x'.queue = x.queue
  writer : x'.writer = x.writer
  emitted : x'.emitted = x.emitted
  advanced : x'.advanced = x.advanced
  reads : x'.reads = x.reads
  nearer : x.Waiting → x'.distance + looks ≤ x.distance

theorem stands_refl (x : QueueRun T) : x.Stands 0 x :=
  ⟨rfl, rfl, rfl, rfl, rfl, fun _ => Nat.le_refl _⟩

theorem Stands.writes (h : x.Stands n x') : x'.writes = x.writes := by
  rw [QueueRun.writes, QueueRun.writes, h.emitted, h.writer]

theorem Stands.waiting (h : x.Stands n x') : x'.Waiting ↔ x.Waiting := by
  rw [Waiting, Waiting, h.writer, h.emitted, h.advanced]

theorem Stands.trans (h : x.Stands m x') (h' : x'.Stands n x'') :
    x.Stands (m + n) x'' := by
  refine ⟨h'.queue.trans h.queue, h'.writer.trans h.writer, h'.emitted.trans h.emitted,
    h'.advanced.trans h.advanced, h'.reads.trans h.reads, fun hw => ?_⟩
  have hfirst := h.nearer hw
  have hsecond := h'.nearer (h.waiting.2 hw)
  omega

/-- Five looks at most. -/
theorem Stands.not_waiting (h : x.Stands n x') (hn : 5 < n) : ¬ x.Waiting := fun hw => by
  have hnear := h.nearer hw
  have hle := x.distance_le
  omega

/-- The count of a queue with an element that waits. -/
theorem Coherent.storeSize_ne_zero (h : x.Coherent loop) (hw : x.Waiting) {found : Option Nat}
    (hr : x.reader = .loadSize found) : x.queue.storeSize ≠ 0 := by
  have hsize := h.size
  rw [subtracted, added, hr, hw.1] at hsize
  have hlt := hw.2
  intro hzero
  rw [hzero] at hsize
  dsimp only at hsize
  have hnat : (0 : UInt64).toNat = 0 := rfl
  omega

/-- A look brings the consumer here. -/
theorem stands_look {pc : ReaderPc} (hreads : ({ x with reader := pc } : QueueRun T).reads = x.reads)
    (hnearer : x.Waiting → ({ x with reader := pc } : QueueRun T).distance + 1 ≤ x.distance) :
    x.Stands 1 { x with reader := pc } :=
  ⟨rfl, rfl, rfl, rfl, hreads, hnearer⟩

/-- **One access of the consumer** does something or is a look. -/
theorem Coherent.readerStep_reads (h : x.Coherent loop) (hstep : x.readerStep loop = .ok x') :
    x'.reads = x.reads + 1 ∨ x.Stands 1 x' := by
  have hfacts := h.reader
  rw [ReaderFacts] at hfacts
  rw [QueueRun.readerStep] at hstep
  cases hr : x.reader with
  | loadRead =>
    rw [hr] at hstep
    obtain rfl := Except.ok.inj hstep
    exact .inr (stands_look (by simp [reads, hr]) fun _ => by simp [distance, hr])
  | loadWrite r =>
    rw [hr] at hstep hfacts
    dsimp only at hstep hfacts
    split at hstep
    · next heq =>
      obtain rfl := Except.ok.inj hstep
      -- the indices are the same, so nothing waits
      refine .inr (stands_look ?_ fun hw => absurd (h.empty_iff.1 (hfacts ▸ heq)) (Nat.ne_of_lt hw.2))
      cases loop <;> simp [reads, hr, ReaderPc.found]
    · obtain rfl := Except.ok.inj hstep
      exact .inr (stands_look (by simp [reads, hr]) fun _ => by simp [distance, hr])
  | loadSlot =>
    rw [hr] at hstep
    obtain rfl := Except.ok.inj hstep
    refine .inr (stands_look ?_ fun _ => ?_)
    · cases loop <;> simp [reads, hr, ReaderPc.found]
    · cases loop <;> simp [distance, hr, ReaderPc.found]
  | loadSize found =>
    rw [hr] at hstep
    dsimp only at hstep
    split at hstep
    · next hzero =>
      obtain rfl := Except.ok.inj hstep
      exact .inr (stands_look (by simp [reads, hr]) fun hw =>
        absurd hzero (h.storeSize_ne_zero hw hr))
    · cases found with
      | none =>
        obtain rfl := Except.ok.inj hstep
        exact .inr (stands_look (by simp [reads, hr]) fun _ => by simp [distance, hr])
      | some i =>
        obtain rfl := Except.ok.inj hstep
        exact .inr (stands_look (by simp [reads, hr]) fun _ => by simp [distance, hr])
  | use i =>
    rw [← QueueRun.readerStep] at hstep
    exact .inl (reads_use hr hstep)
  | loadIndex =>
    rw [hr] at hstep
    obtain rfl := Except.ok.inj hstep
    exact .inl (by simp [reads, hr])
  | storeIndex i =>
    rw [hr] at hstep
    obtain rfl := Except.ok.inj hstep
    refine .inl ?_
    rw [reads, reads, hr]
    dsimp only
    omega
  | checkSize =>
    rw [hr] at hstep
    obtain ⟨_, -, hstep⟩ := bind_eq_ok.1 hstep
    obtain rfl := Except.ok.inj hstep
    exact .inl (by simp [reads, hr])
  | subSize =>
    rw [hr] at hstep
    obtain rfl := Except.ok.inj hstep
    exact .inl (by simp [reads, hr])

/-! ## A queue with nothing to read -/

theorem Coherent.empty_iff_advanced (h : x.Coherent loop) :
    x.Empty ↔ x.advanced = x.emitted.length := by
  rw [← h.empty_iff, Empty, LFQueue.getNextToRead]
  split
  · next heq => exact iff_of_true rfl heq
  · next hne => exact iff_of_false (by simp) hne

theorem Coherent.empty_of_not_waiting (h : x.Coherent loop) (hidle : x.writer = .loadSlot)
    (hw : ¬ x.Waiting) : x.Empty :=
  h.empty_iff_advanced.2 (Nat.le_antisymm h.le (Nat.le_of_not_lt fun hlt => hw ⟨hidle, hlt⟩))

theorem Stands.empty (h : x.Stands n x') (he : x.Empty) : x'.Empty := by
  rw [Empty, h.queue]
  exact he

/-- The consumer has no element in its hands then. -/
theorem Coherent.not_use_of_empty (h : x.Coherent loop) (he : x.Empty) (i : Nat) :
    x.reader ≠ .use i := by
  intro hr
  have hfacts := h.reader
  rw [ReaderFacts, hr] at hfacts
  exact absurd (h.empty_iff_advanced.1 he) (Nat.ne_of_lt hfacts.2.1)

/-- And it leaves the queue as it is. -/
theorem Coherent.empty_readerStep (h : x.Coherent loop) (he : x.Empty)
    (hstep : x.readerStep loop = .ok x') : x'.Empty := by
  have hall := h.empty_iff_advanced.1 he
  have hfacts := h.reader
  have hread : x'.advanced = x.advanced := by
    rw [ReaderFacts] at hfacts
    rw [QueueRun.readerStep] at hstep
    cases hr : x.reader with
    | storeIndex i =>
      rw [hr] at hfacts
      exact absurd hall (Nat.ne_of_lt hfacts.2.1)
    | loadWrite r =>
      rw [hr] at hstep
      dsimp only at hstep
      split at hstep <;> obtain rfl := Except.ok.inj hstep <;> rfl
    | loadSize found =>
      rw [hr] at hstep
      dsimp only at hstep
      split at hstep
      · obtain rfl := Except.ok.inj hstep
        rfl
      · cases found <;> obtain rfl := Except.ok.inj hstep <;> rfl
    | checkSize =>
      rw [hr] at hstep
      obtain ⟨_, -, hstep⟩ := bind_eq_ok.1 hstep
      obtain rfl := Except.ok.inj hstep
      rfl
    | _ =>
      rw [hr] at hstep
      obtain rfl := Except.ok.inj hstep
      rfl
  rw [(h.readerStep hstep).empty_iff_advanced, hread, (readerStep_frame hstep).2.1]
  exact hall

end QueueRun
end TradingEcosystem
