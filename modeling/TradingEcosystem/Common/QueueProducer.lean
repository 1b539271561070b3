import TradingEcosystem.Common.LFQueue

/-!
# A producer with a list of elements

The producers of the repository write one element after the other: the sequencer its requests, the
logger the characters of a line.  `Feeds` says how far such a producer has come, and `Empty` what a
consumer knows that finds nothing: it has used all there is.
-/

set_option autoImplicit false

namespace TradingEcosystem
namespace QueueRun

variable {T : Type} {x x' : QueueRun T} {loop : ConsumerLoop}

/-- The elements that are not published yet, of those the producer is to write. -/
def pending (x : QueueRun T) (elements : List T) : List T :=
  if x.writer.isLast then elements.tail else elements

/-- The producer is idle or at the first of the elements, and `all` was and is to be published. -/
structure Feeds (x : QueueRun T) (elements all : List T) : Prop where
  serves : x.writer.Serves elements.head?
  all : all = x.emitted ++ x.pending elements

theorem feeds_start (size : UInt64) (default : T) : (start size default).Feeds [] [] :=
  ⟨.inl rfl, rfl⟩

/-- There is an element wherever the producer is at its last access. -/
theorem Feeds.ne_nil {elements all : List T} (h : x.Feeds elements all)
    (hlast : x.writer.isLast = true) : elements ≠ [] := by
  rintro rfl
  rw [h.serves.idle] at hlast
  exact absurd hlast (by simp)

/-- More elements come in behind the others. -/
theorem Feeds.append {elements all : List T} (h : x.Feeds elements all) (more : List T) :
    x.Feeds (elements ++ more) (all ++ more) := by
  cases elements with
  | nil =>
    have hidle : x.writer = .loadSlot := h.serves.idle
    have hall := h.all
    rw [pending, hidle, WriterPc.isLast_loadSlot] at hall
    refine ⟨.inl hidle, ?_⟩
    rw [hall, pending, hidle, WriterPc.isLast_loadSlot]
    simp
  | cons v rest =>
    refine ⟨h.serves, ?_⟩
    rw [h.all, pending, pending, List.append_assoc]
    split <;> rfl

/-- **One access** at the first of the elements. -/
theorem Feeds.writerStep {v : T} {rest all : List T} (h : x.Feeds (v :: rest) all) :
    (x.writerStep v).Feeds (if x.writer.isLast then rest else v :: rest) all := by
  have hbefore : all = x.emitted ++ if x.writer.isLast then rest else v :: rest := h.all
  obtain ⟨hserves, hall⟩ := writerStep_sends h.serves hbefore
  cases hlast : x.writer.isLast with
  | true =>
    obtain ⟨hpc, -⟩ := writerStep_of_isLast hlast v
    rw [hlast] at hall
    refine ⟨.inl hpc, ?_⟩
    rw [pending, hpc, WriterPc.isLast_loadSlot]
    exact hall
  | false =>
    rw [hlast] at hserves hall
    exact ⟨hserves, hall⟩

theorem Feeds.readerStep {elements all : List T} (h : x.Feeds elements all)
    (hstep : x.readerStep loop = .ok x') : x'.Feeds elements all := by
  obtain ⟨hwriter, hemitted, -⟩ := readerStep_frame hstep
  refine ⟨hwriter ▸ h.serves, ?_⟩
  rw [hemitted, pending, hwriter]
  exact h.all

/-- The consumer takes the slot it uses, and nothing else. -/
theorem readerStep_taken (h : x.readerStep loop = .ok x') :
    (∃ i, x.reader = .use i ∧ x'.taken = x.taken ++ [x.queue.store i]) ∨
      (∀ i, x.reader ≠ .use i) ∧ x'.taken = x.taken := by
  rw [readerStep] at h
  cases hr : x.reader with
  | use i =>
    rw [hr] at h
    obtain rfl := Except.ok.inj h
    exact .inl ⟨i, rfl, rfl⟩
  | loadWrite r =>
    rw [hr] at h
    dsimp only at h
    split at h <;> obtain rfl := Except.ok.inj h <;> exact .inr ⟨by simp, rfl⟩
  | loadSize found =>
    rw [hr] at h
    dsimp only at h
    split at h
    · obtain rfl := Except.ok.inj h
      exact .inr ⟨by simp, rfl⟩
    · cases found <;> obtain rfl := Except.ok.inj h <;> exact .inr ⟨by simp, rfl⟩
  | checkSize =>
    rw [hr] at h
    obtain ⟨_, -, h⟩ := bind_eq_ok.1 h
    obtain rfl := Except.ok.inj h
    exact .inr ⟨by simp, rfl⟩
  | _ =>
    rw [hr] at h
    obtain rfl := Except.ok.inj h
    exact .inr ⟨by simp, rfl⟩

theorem writerStep_taken (x : QueueRun T) (v : T) : (x.writerStep v).taken = x.taken := by
  rw [QueueRun.writerStep]
  split <;> rfl

/-- The queue reads as empty. -/
def Empty (x : QueueRun T) : Prop := x.queue.getNextToRead = none

/-- The consumer has used all there is when its queue reads as empty. -/
theorem Coherent.taken_of_empty (h : x.Coherent loop) (he : x.Empty) : x.taken = x.emitted := by
  rw [Empty, LFQueue.getNextToRead] at he
  have hall := h.empty_iff.1 (by
    by_contra hne
    rw [if_neg hne] at he
    exact absurd he (by simp))
  have hused : x.advanced ≤ x.used := by
    rw [used]
    split <;> omega
  rw [h.taken, List.take_of_length_le (by omega)]

end QueueRun
end TradingEcosystem
