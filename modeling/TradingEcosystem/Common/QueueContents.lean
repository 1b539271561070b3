import TradingEcosystem.Common.LFQueue

/-!
# What a queue hands out

A queue that fills up loses elements, but it hands out no slot that was never written: until its
producer has gone around the ring once, the consumer is behind it, and from then on every slot has
been written.  `Contains P` is the invariant, for a property of everything the producer writes.  It
needs no bound on how far the producer is ahead.
-/

set_option autoImplicit false

namespace TradingEcosystem

variable {T : Type} {P Q : T → Prop}

/-- Below `n` there is nothing but elements with the property: the producer is not behind `n`, or
has gone around. -/
def LFQueue.Readable (P : T → Prop) (q : LFQueue T) (n : Nat) : Prop :=
  (∀ j < q.capacity, P (q.store j)) ∨ n ≤ q.nextWriteIndex ∧ ∀ j < q.nextWriteIndex, P (q.store j)

theorem LFQueue.Readable.get {q : LFQueue T} {n j : Nat} (h : q.Readable P n) (hj : j < n)
    (hcap : j < q.capacity) : P (q.store j) :=
  h.elim (fun hall => hall j hcap) fun hn => hn.2 j (Nat.lt_of_lt_of_le hj hn.1)

theorem LFQueue.Readable.write {q : LFQueue T} {n : Nat} (h : q.Readable P n) (i : Nat) {v : T}
    (hv : P v) : (q.write i v).Readable P n := by
  have hslot : ∀ j, P (q.store j) → P ((q.write i v).store j) := by
    intro j hj
    change P (Function.update q.store i v j)
    rw [Function.update_apply]
    split
    · exact hv
    · exact hj
  exact h.imp (fun hall j hj => hslot j (hall j hj))
    fun hn => ⟨hn.1, fun j hj => hslot j (hn.2 j hj)⟩

/-- The producer advances over a slot that has been written. -/
theorem LFQueue.Readable.advance {q : LFQueue T} {n : Nat} (h : q.Readable P n)
    (hslot : P (q.store q.nextWriteIndex)) :
    ({ q with nextWriteIndex := (q.nextWriteIndex + 1) % q.capacity } :
      LFQueue T).Readable P n := by
  rcases h with hall | ⟨hn, hbelow⟩
  · exact .inl hall
  · have hfilled : ∀ j < q.nextWriteIndex + 1, P (q.store j) := by
      intro j hj
      rcases Nat.lt_succ_iff_lt_or_eq.1 hj with hj | rfl
      · exact hbelow j hj
      · exact hslot
    rcases Nat.lt_or_ge (q.nextWriteIndex + 1) q.capacity with hroom | hlast
    · refine .inr ?_
      dsimp only
      rw [Nat.mod_eq_of_lt hroom]
      exact ⟨Nat.le_succ_of_le hn, hfilled⟩
    · exact .inl fun j hj => hfilled j (Nat.lt_of_lt_of_le hj hlast)

namespace QueueRun

/-- What is known of the slot the producer is at. -/
def Writing (P : T → Prop) (x : QueueRun T) : Prop :=
  match x.writer with
  | .loadSlot => True
  | .writeSlot i => i = x.queue.nextWriteIndex
  | .loadIndex _ => P (x.queue.store x.queue.nextWriteIndex)
  | .storeIndex _ i => i = x.queue.nextWriteIndex ∧ P (x.queue.store x.queue.nextWriteIndex)
  | .addSize => True

/-- What is known of the slot the consumer is at. -/
def Reading (P : T → Prop) (x : QueueRun T) : Prop :=
  match x.reader with
  | .loadRead => True
  | .loadWrite r => r = x.queue.nextReadIndex
  | .loadSlot => x.queue.Readable P (x.queue.nextReadIndex + 1)
  | .loadSize none => True
  | .loadSize (some i) =>
    i = x.queue.nextReadIndex ∧ x.queue.Readable P (x.queue.nextReadIndex + 1)
  | .use i => i = x.queue.nextReadIndex ∧ x.queue.Readable P (x.queue.nextReadIndex + 1)
  | .loadIndex => x.queue.Readable P (x.queue.nextReadIndex + 1)
  | .storeIndex i => i = x.queue.nextReadIndex ∧ x.queue.Readable P (x.queue.nextReadIndex + 1)
  | .checkSize => True
  | .subSize => True

/-- **The invariant.** -/
structure Contains (P : T → Prop) (x : QueueRun T) : Prop where
  writeLt : x.queue.nextWriteIndex < x.queue.capacity
  readLt : x.queue.nextReadIndex < x.queue.capacity
  readable : x.queue.Readable P x.queue.nextReadIndex
  writing : x.Writing P
  reading : x.Reading P

variable {x x' : QueueRun T} {loop : ConsumerLoop}

theorem contains_start {size : UInt64} (h : 0 < size) (default : T) :
    (start size default).Contains P where
  writeLt := UInt64.lt_iff_toNat_lt.1 h
  readLt := UInt64.lt_iff_toNat_lt.1 h
  readable := .inr ⟨Nat.le_refl _, fun _ hj => absurd hj (Nat.not_lt_zero _)⟩
  writing := trivial
  reading := trivial

/-- Where the consumer is, it is still when the producer has gone on. -/
theorem Reading.mono (h : x.Reading P) (hreader : x'.reader = x.reader)
    (hread : x'.queue.nextReadIndex = x.queue.nextReadIndex)
    (hreadable : ∀ n, x.queue.Readable P n → x'.queue.Readable Q n) : x'.Reading Q := by
  rw [Reading] at h ⊢
  rw [hreader, hread]
  cases hr : x.reader with
  | loadRead => trivial
  | loadWrite r => rwa [hr] at h
  | loadSlot => rw [hr] at h; exact hreadable _ h
  | loadSize found =>
    rw [hr] at h
    cases found with
    | none => trivial
    | some i => exact ⟨h.1, hreadable _ h.2⟩
  | use i => rw [hr] at h; exact ⟨h.1, hreadable _ h.2⟩
  | loadIndex => rw [hr] at h; exact hreadable _ h
  | storeIndex i => rw [hr] at h; exact ⟨h.1, hreadable _ h.2⟩
  | checkSize => trivial
  | subSize => trivial

/-- What is true of an element stays true of it. -/
theorem Contains.mono (h : x.Contains P) (hpq : ∀ v, P v → Q v) : x.Contains Q := by
  have hreadable : ∀ n, x.queue.Readable P n → x.queue.Readable Q n := fun n hn =>
    hn.imp (fun hall j hj => hpq _ (hall j hj)) fun hn => ⟨hn.1, fun j hj => hpq _ (hn.2 j hj)⟩
  refine ⟨h.writeLt, h.readLt, hreadable _ h.readable, ?_, h.reading.mono rfl rfl hreadable⟩
  have hwriting := h.writing
  rw [Writing] at hwriting ⊢
  cases hw : x.writer with
  | loadSlot => trivial
  | writeSlot i => rwa [hw] at hwriting
  | loadIndex v => rw [hw] at hwriting; exact hpq _ hwriting
  | storeIndex v i => rw [hw] at hwriting; exact ⟨hwriting.1, hpq _ hwriting.2⟩
  | addSize => trivial

/-- The slot the consumer uses. -/
theorem Contains.use (h : x.Contains P) {i : Nat} (hr : x.reader = .use i) :
    P (x.queue.store i) := by
  have hreading := h.reading
  rw [Reading, hr] at hreading
  obtain ⟨rfl, hreadable⟩ := hreading
  exact hreadable.get (Nat.lt_succ_self _) h.readLt

/-- **The producer** with an element that has the property. -/
theorem Contains.writerStep (h : x.Contains P) {v : T} (hv : P v) :
    (x.writerStep v).Contains P := by
  have hwriting := h.writing
  have hreading := h.reading
  rw [QueueRun.writerStep]
  rw [Writing] at hwriting
  cases hw : x.writer with
  | loadSlot => exact { h with writing := rfl, reading := hreading }
  | writeSlot i =>
    rw [hw] at hwriting
    obtain rfl := hwriting
    have hslot : P (Function.update x.queue.store x.queue.nextWriteIndex v
        x.queue.nextWriteIndex) := by
      rwa [Function.update_self]
    exact ⟨h.writeLt, h.readLt, h.readable.write _ hv, hslot,
      hreading.mono rfl rfl fun n hn => hn.write _ hv⟩
  | loadIndex w =>
    rw [hw] at hwriting
    exact { h with writing := ⟨rfl, hwriting⟩, reading := hreading }
  | storeIndex w i =>
    rw [hw] at hwriting
    obtain ⟨rfl, hslot⟩ := hwriting
    exact ⟨Nat.mod_lt _ (Nat.zero_lt_of_lt h.writeLt), h.readLt,
      h.readable.advance hslot, trivial,
      hreading.mono rfl rfl fun n hn => hn.advance hslot⟩
  | addSize => exact { h with writing := trivial, reading := hreading.mono rfl rfl fun _ hn => hn }

/-- The consumer advances over a slot the producer has left behind. -/
theorem Contains.advance (h : x.Contains P)
    (hr : x.queue.Readable P (x.queue.nextReadIndex + 1)) :
    x.queue.Readable P ((x.queue.nextReadIndex + 1) % x.queue.capacity) := by
  refine hr.imp id fun hn => ⟨?_, hn.2⟩
  have hwrite := h.writeLt
  rw [Nat.mod_eq_of_lt (by omega)]
  exact hn.1

/-- **The consumer**, in either of the loops. -/
theorem Contains.readerStep (h : x.Contains P) (hn : x.readerStep loop = .ok x') :
    x'.Contains P := by
  have hreading := h.reading
  have hwriting := h.writing
  rw [QueueRun.readerStep] at hn
  rw [Reading] at hreading
  cases hr : x.reader with
  | loadRead =>
    rw [hr] at hn
    obtain rfl := Except.ok.inj hn
    exact { h with writing := hwriting, reading := rfl }
  | loadWrite r =>
    rw [hr] at hn hreading
    obtain rfl := hreading
    dsimp only at hn
    split at hn <;> obtain rfl := Except.ok.inj hn
    · refine { h with writing := hwriting, reading := ?_ }
      cases loop <;> trivial
    · next hne =>
      -- the two indices differ, so that a producer that has not gone around is ahead
      refine { h with writing := hwriting, reading := ?_ }
      exact h.readable.imp id fun hn => ⟨Nat.lt_of_le_of_ne hn.1 hne, hn.2⟩
  | loadSlot =>
    rw [hr] at hn hreading
    obtain rfl := Except.ok.inj hn
    refine { h with writing := hwriting, reading := ?_ }
    cases loop <;> exact ⟨rfl, hreading⟩
  | loadSize found =>
    rw [hr] at hn hreading
    dsimp only at hn
    split at hn
    · obtain rfl := Except.ok.inj hn
      exact { h with writing := hwriting, reading := trivial }
    · cases found with
      | none =>
        obtain rfl := Except.ok.inj hn
        exact { h with writing := hwriting, reading := trivial }
      | some i =>
        obtain rfl := Except.ok.inj hn
        exact { h with writing := hwriting, reading := hreading }
  | use i =>
    rw [hr] at hn hreading
    obtain rfl := Except.ok.inj hn
    exact { h with writing := hwriting, reading := hreading.2 }
  | loadIndex =>
    rw [hr] at hn hreading
    obtain rfl := Except.ok.inj hn
    exact { h with writing := hwriting, reading := ⟨rfl, hreading⟩ }
  | storeIndex i =>
    rw [hr] at hn hreading
    obtain ⟨rfl, hreadable⟩ := hreading
    obtain rfl := Except.ok.inj hn
    exact ⟨h.writeLt, Nat.mod_lt _ (Nat.zero_lt_of_lt h.readLt), h.advance hreadable, hwriting,
      trivial⟩
  | checkSize =>
    rw [hr] at hn
    obtain ⟨-, -, hn⟩ := bind_eq_ok.1 hn
    obtain rfl := Except.ok.inj hn
    exact { h with writing := hwriting, reading := trivial }
  | subSize =>
    rw [hr] at hn
    obtain rfl := Except.ok.inj hn
    exact { h with writing := hwriting, reading := trivial }

end QueueRun
end TradingEcosystem
