import TradingEcosystem.Common.LogFormat
import TradingEcosystem.Common.QueueProducer

/-!
# The logger and its thread

`Logger` of `common/logging.h` over its whole life: the calls of `log`, which push their elements
into the queue, the thread that runs `flushQueue`, and the destructor, which waits for an empty
queue, takes `running_` down and joins the thread.  Every access to an atomic is one step, of the
owner or of the thread, in any order.

`written_of_run` says that the file is at any time a beginning of the lines that were logged, and
that it has all of them when the destructor is through.
-/

set_option autoImplicit false

namespace TradingEcosystem

/-- `LOG_QUEUE_SIZE`. -/
def logQueueSize : UInt64 := 8 * 1024 * 1024

/-- Where the thread is in `flushQueue`. -/
inductive FlushPc where
  /-- `while(running_)`. -/
  | checkRunning
  /-- The inner loop. -/
  | scanning
  | finished
  deriving DecidableEq

/-- Where the owner is. -/
inductive OwnerPc where
  | logging
  /-- The destructor: `while(queue_.size())`. -/
  | waiting
  /-- `running_ = false`. -/
  | stopping
  /-- `logger_thread_->join()`. -/
  | joining
  | closed
  deriving DecidableEq

/-- A logger between its owner and its thread. -/
structure LoggerRun (F : Type) where
  queue : QueueRun (LogElement F)
  /-- What the call of `log` at hand still has to push. -/
  pushing : List (LogElement F) := []
  thread : FlushPc := .checkRunning
  owner : OwnerPc := .logging
  running : Bool := true
  file : List UInt8 := []
  /-- The calls of `log`: the format and the arguments of each. -/
  calls : List (List UInt8 × List (LogValue F)) := []

/-- What happens next. -/
inductive LoggerMove (F : Type) where
  /-- The owner calls `log`, if it is through with the last call. -/
  | log (s : List UInt8) (args : List (LogValue F))
  /-- An access of `pushValue`. -/
  | push
  /-- An access of the thread. -/
  | flush
  /-- An access of the destructor, if no call of `log` is at hand. -/
  | destroy

namespace LoggerRun

variable {F : Type}

/-- The constructor; `element` is what the vector of the queue is filled with. -/
def start (element : LogElement F) : LoggerRun F := { queue := .start logQueueSize element }

/-- `log`, up to its first access. -/
def callLog (x : LoggerRun F) (s : List UInt8) (args : List (LogValue F)) :
    Except Fault (LoggerRun F) :=
  if x.owner = .logging ∧ x.pushing = [] then do
    let elements ← Logger.log s args
    return { x with pushing := elements, calls := x.calls ++ [(s, args)] }
  else .ok x

/-- An access of `pushValue`. -/
def pushStep (x : LoggerRun F) : LoggerRun F :=
  match x.pushing with
  | [] => x
  | v :: rest =>
    { x with
      queue := x.queue.writerStep v
      pushing := if x.queue.writer.isLast then rest else x.pushing }

variable (showFloat : F → List UInt8)

/-- What the body of the inner loop writes. -/
def written (x : LoggerRun F) : List UInt8 :=
  match x.queue.reader with
  | .use i => Logger.text showFloat (x.queue.queue.store i)
  | _ => []

/-- The inner loop is left where `size()` is zero or nothing was found. -/
def leaves (x x' : QueueRun (LogElement F)) : Bool :=
  match x.reader, x'.reader with
  | .loadSize _, .loadRead => true
  | _, _ => false

/-- An access of the thread. -/
def flushStep (x : LoggerRun F) : Except Fault (LoggerRun F) :=
  match x.thread with
  | .checkRunning => .ok { x with thread := if x.running then .scanning else .finished }
  | .scanning => do
    let queue ← x.queue.readerStep .size
    return { x with
      queue := queue
      file := x.file ++ x.written showFloat
      thread := if leaves x.queue queue then .checkRunning else .scanning }
  | .finished => .ok x

/-- An access of the destructor. -/
def destroyStep (x : LoggerRun F) : LoggerRun F :=
  if x.pushing = [] then
    match x.owner with
    | .logging => { x with owner := .waiting }
    | .waiting => if x.queue.queue.storeSize = 0 then { x with owner := .stopping } else x
    | .stopping => { x with running := false, owner := .joining }
    | .joining => if x.thread = .finished then { x with owner := .closed } else x
    | .closed => x
  else x

/-- One move. -/
def step (x : LoggerRun F) : LoggerMove F → Except Fault (LoggerRun F)
  | .log s args => x.callLog s args
  | .push => .ok x.pushStep
  | .flush => x.flushStep showFloat
  | .destroy => .ok x.destroyStep

/-- Move after move. -/
def run (x : LoggerRun F) (moves : List (LoggerMove F)) : Except Fault (LoggerRun F) :=
  moves.foldlM (step showFloat) x

def Next (x : LoggerRun F) (m : LoggerMove F) (x' : LoggerRun F) : Prop :=
  x.step showFloat m = .ok x'

/-- The condition: the queue does not fill up. -/
def Roomy (x : LoggerRun F) : LoggerMove F → Prop
  | .push => ∀ v, x.queue.HasRoom (.writer v)
  | _ => True

/-! ## The invariant -/

/-- The elements of all calls. -/
def logged (x : LoggerRun F) : List (LogElement F) :=
  x.calls.flatMap fun c => Logger.filled c.1 c.2

/-- The lines of all calls. -/
def lines (x : LoggerRun F) : List UInt8 :=
  x.calls.flatMap fun c => Logger.line showFloat c.1 c.2

/-- **The invariant.** -/
structure Writes (x : LoggerRun F) : Prop where
  queue : x.queue.Coherent .size
  feeds : x.queue.Feeds x.pushing x.logged
  file : x.file = x.queue.taken.flatMap (Logger.text showFloat)
  /-- The destructor starts behind the last call, and passes its loop behind the last element. -/
  quiet : x.owner ≠ .logging → x.pushing = []
  drained : x.owner = .stopping ∨ x.owner = .joining ∨ x.owner = .closed →
    x.queue.taken = x.queue.emitted

theorem writes_start (element : LogElement F) : Writes showFloat (start element) where
  queue := QueueRun.coherent_start .size (by decide) _
  feeds := QueueRun.feeds_start _ _
  file := rfl
  quiet := fun _ => rfl
  drained := fun _ => rfl

variable {showFloat} {x x' : LoggerRun F}

theorem Writes.callLog (h : Writes showFloat x) {s : List UInt8} {args : List (LogValue F)}
    (hn : x.callLog s args = .ok x') : Writes showFloat x' := by
  rw [LoggerRun.callLog] at hn
  split at hn
  · next hcall =>
    obtain ⟨howner, hidle⟩ := hcall
    obtain ⟨elements, hlog, hn⟩ := bind_eq_ok.1 hn
    obtain rfl := Except.ok.inj hn
    have helements : elements = Logger.filled s args := by
      rw [Logger.log_eq_outcome, Logger.outcome] at hlog
      split at hlog
      · exact (Except.ok.inj hlog).symm
      · split at hlog <;> exact absurd hlog (by simp)
    have hfeeds := h.feeds.append elements
    rw [hidle, List.nil_append] at hfeeds
    refine ⟨h.queue, ?_, h.file, fun hother => absurd howner hother, fun hlate => ?_⟩
    · have hlogged : ({ x with pushing := elements, calls := x.calls ++ [(s, args)] } :
          LoggerRun F).logged = x.logged ++ elements := by
        rw [logged, logged, List.flatMap_append, List.flatMap_singleton, helements]
      rw [hlogged]
      exact hfeeds
    · exact h.drained hlate
  · exact Except.ok.inj hn ▸ h

theorem Writes.pushStep (h : Writes showFloat x) (hroom : x.Roomy .push) :
    Writes showFloat x.pushStep := by
  have hfeeds := h.feeds
  rw [LoggerRun.pushStep]
  cases hp : x.pushing with
  | nil => exact h
  | cons v rest =>
    rw [hp] at hfeeds
    have howner : x.owner = .logging := by
      by_contra hother
      rw [h.quiet hother] at hp
      exact absurd hp (by simp)
    refine ⟨h.queue.writerStep v (hroom v), hfeeds.writerStep, ?_, fun hother => ?_, fun hlate => ?_⟩
    · dsimp only
      rw [QueueRun.writerStep_taken]
      exact h.file
    · exact absurd howner hother
    · dsimp only at hlate
      rw [howner] at hlate
      exact absurd hlate (by simp)

/-- What the thread takes it writes. -/
theorem written_eq {queue : QueueRun (LogElement F)} (h : x.queue.readerStep .size = .ok queue) :
    queue.taken.flatMap (Logger.text showFloat) =
      x.queue.taken.flatMap (Logger.text showFloat) ++ x.written showFloat := by
  rw [written]
  rcases QueueRun.readerStep_taken h with ⟨i, hi, htaken⟩ | ⟨hnone, htaken⟩
  · rw [htaken, hi, List.flatMap_append, List.flatMap_singleton]
  · rw [htaken]
    cases hr : x.queue.reader with
    | use i => exact absurd hr (hnone i)
    | _ => exact (List.append_nil _).symm

/-- What has been drained stays so. -/
theorem taken_eq_of_drained {queue : QueueRun (LogElement F)}
    (hq : queue.Coherent .size) (h : x.queue.readerStep .size = .ok queue)
    (hdrained : x.queue.taken = x.queue.emitted) : queue.taken = queue.emitted := by
  obtain ⟨-, hemitted, -⟩ := QueueRun.readerStep_frame h
  have hbefore : x.queue.taken <+: queue.taken := by
    rcases QueueRun.readerStep_taken h with ⟨i, -, htaken⟩ | ⟨-, htaken⟩
    · exact htaken ▸ List.prefix_append _ _
    · exact htaken ▸ List.prefix_refl _
  have hafter : queue.taken <+: queue.emitted := hq.taken ▸ List.take_prefix _ _
  rw [hdrained, ← hemitted] at hbefore
  exact hafter.eq_of_length (Nat.le_antisymm hafter.length_le hbefore.length_le)

theorem Writes.flushStep (h : Writes showFloat x) (hn : x.flushStep showFloat = .ok x') :
    Writes showFloat x' := by
  rw [LoggerRun.flushStep] at hn
  split at hn
  · obtain rfl := Except.ok.inj hn
    exact ⟨h.queue, h.feeds, h.file, h.quiet, h.drained⟩
  · obtain ⟨queue, hq, hn⟩ := bind_eq_ok.1 hn
    obtain rfl := Except.ok.inj hn
    have hqueue := h.queue.readerStep hq
    refine ⟨hqueue, h.feeds.readerStep hq, ?_, h.quiet, fun hlate => ?_⟩
    · dsimp only
      rw [written_eq hq, h.file]
    · exact taken_eq_of_drained hqueue hq (h.drained hlate)
  · exact Except.ok.inj hn ▸ h

/-- **The count is zero** behind the last call only when everything has been taken. -/
theorem Writes.drained_of_storeSize (h : Writes showFloat x) (hidle : x.pushing = [])
    (hzero : x.queue.queue.storeSize = 0) : x.queue.taken = x.queue.emitted := by
  have hfeeds := h.feeds
  rw [hidle] at hfeeds
  have hwriter : x.queue.writer = .loadSlot := hfeeds.serves.idle
  have hsize := h.queue.size
  have hsub : x.queue.subtracted ≤ x.queue.used := by
    rw [QueueRun.subtracted, QueueRun.used]
    cases x.queue.reader <;> dsimp only <;> omega
  rw [QueueRun.added, hwriter, hzero, UInt64.toNat_zero, Nat.zero_add] at hsize
  rw [h.queue.taken, List.take_of_length_le (by dsimp only at hsize; omega)]

theorem Writes.destroyStep (h : Writes showFloat x) : Writes showFloat x.destroyStep := by
  rw [LoggerRun.destroyStep]
  split
  · next hidle =>
    split
    · exact ⟨h.queue, h.feeds, h.file, fun _ => hidle, by simp⟩
    · split
      · next hzero =>
        exact ⟨h.queue, h.feeds, h.file, fun _ => hidle,
          fun _ => h.drained_of_storeSize hidle hzero⟩
      · exact h
    · next howner =>
      exact ⟨h.queue, h.feeds, h.file, fun _ => hidle, fun _ => h.drained (.inl howner)⟩
    · next howner =>
      split
      · exact ⟨h.queue, h.feeds, h.file, fun _ => hidle,
          fun _ => h.drained (.inr (.inl howner))⟩
      · exact h
    · exact h
  · exact h

/-- **One move.** -/
theorem Writes.step (h : Writes showFloat x) {m : LoggerMove F} (hroom : x.Roomy m)
    (hn : Next showFloat x m x') : Writes showFloat x' := by
  cases m with
  | log s args => exact h.callLog hn
  | push => exact Except.ok.inj hn ▸ h.pushStep hroom
  | flush => exact h.flushStep hn
  | destroy => exact Except.ok.inj hn ▸ h.destroyStep

theorem flatMap_text_logged (x : LoggerRun F) :
    x.logged.flatMap (Logger.text showFloat) = x.lines showFloat := by
  rw [logged, lines, List.flatMap_assoc]
  exact List.flatMap_congr fun c _ => Logger.flatMap_text_filled showFloat c.1 c.2

/-- **The file** holds the first characters of the lines that were logged, in every interleaving in
which the queue does not fill up, and all of them when the destructor is through. -/
theorem written_of_run {element : LogElement F} {moves : List (LoggerMove F)}
    (hroom : Run.Along (Next showFloat) Roomy (start element) moves)
    (hrun : (start element).run showFloat moves = .ok x) :
    x.file <+: x.lines showFloat ∧ (x.owner = .closed → x.file = x.lines showFloat) := by
  have h : Writes showFloat x := hroom.inv_of_foldlM (Writes showFloat) (fun _ _ _ hn => hn)
    (fun _ _ _ h hr hn => h.step hr hn) (writes_start showFloat element) hrun
  have hfile := h.file
  rw [← flatMap_text_logged, h.feeds.all, hfile]
  refine ⟨?_, fun hclosed => ?_⟩
  · have htaken : x.queue.taken <+: x.queue.emitted ++ x.queue.pending x.pushing := by
      rw [h.queue.taken]
      exact (List.take_prefix _ _).trans (List.prefix_append _ _)
    obtain ⟨rest, hrest⟩ := htaken
    exact ⟨rest.flatMap _, by rw [← hrest, List.flatMap_append]⟩
  · have hidle : x.pushing = [] := h.quiet (by rw [hclosed]; simp)
    have hpending : x.queue.pending [] = [] := by
      rw [QueueRun.pending]
      split <;> rfl
    rw [hidle, hpending, List.append_nil, h.drained (.inr (.inr hclosed))]

/-! ### Short runs -/

theorem emitted_step {m : LoggerMove F} (hn : Next showFloat x m x') :
    x'.queue.emitted.length ≤ x.queue.emitted.length + 1 ∧
      x'.queue.queue.capacity = x.queue.queue.capacity := by
  cases m with
  | log s args =>
    rw [Next, step, callLog] at hn
    split at hn
    · obtain ⟨elements, -, hn⟩ := bind_eq_ok.1 hn
      obtain rfl := Except.ok.inj hn
      exact ⟨Nat.le_succ _, rfl⟩
    · exact Except.ok.inj hn ▸ ⟨Nat.le_succ _, rfl⟩
  | push =>
    obtain rfl := Except.ok.inj hn
    rw [LoggerRun.pushStep]
    split
    · exact ⟨Nat.le_succ _, rfl⟩
    · exact x.queue.writerStep_emitted _
  | flush =>
    rw [Next, step, LoggerRun.flushStep] at hn
    split at hn
    · exact Except.ok.inj hn ▸ ⟨Nat.le_succ _, rfl⟩
    · obtain ⟨queue, hq, hn⟩ := bind_eq_ok.1 hn
      obtain rfl := Except.ok.inj hn
      obtain ⟨-, hemitted, hcap⟩ := QueueRun.readerStep_frame hq
      exact ⟨by dsimp only; rw [hemitted]; exact Nat.le_succ _, hcap⟩
    · exact Except.ok.inj hn ▸ ⟨Nat.le_succ _, rfl⟩
  | destroy =>
    obtain rfl := Except.ok.inj hn
    have hsame : x.destroyStep.queue = x.queue := by
      rw [LoggerRun.destroyStep]
      split
      · split
        · rfl
        · split <;> rfl
        · rfl
        · split <;> rfl
        · rfl
      · rfl
    rw [hsame]
    exact ⟨Nat.le_succ _, rfl⟩

/-- A run of fewer moves than the queue has slots finds room. -/
theorem along_roomy (moves : List (LoggerMove F)) {x : LoggerRun F}
    (h : x.queue.emitted.length + moves.length < x.queue.queue.capacity) :
    Run.Along (Next showFloat) Roomy x moves := by
  induction moves generalizing x with
  | nil => trivial
  | cons m moves ih =>
    rw [List.length_cons] at h
    refine ⟨?_, fun x' hn => ?_⟩
    · cases m with
      | push =>
        intro v w i _
        rw [QueueRun.unread]
        omega
      | _ => trivial
    · obtain ⟨hlen, hcap⟩ := emitted_step hn
      exact ih (by omega)

/-- A line of two characters, and the end of the logger. -/
def shortLife : List (LoggerMove Unit) :=
  [.log [97, Logger.percent] [.cString [98]]] ++ List.replicate 10 .push ++
    List.replicate 22 .flush ++ List.replicate 3 .destroy ++ List.replicate 5 .flush ++ [.destroy]

theorem written_of_run_shortLife : ∃ x : LoggerRun Unit,
    (start (.char 0)).run (fun _ => []) shortLife = .ok x ∧ x.owner = .closed ∧
      x.file = [97, 98] ∧ (x.file <+: x.lines (fun _ => []) ∧
        (x.owner = .closed → x.file = x.lines (fun _ => []))) := by
  have hend : ((start (.char 0) : LoggerRun Unit).run (fun _ => []) shortLife).map
      (fun x => (x.owner, x.file)) = .ok (.closed, [97, 98]) := by
    decide +kernel
  obtain ⟨x, hrun, hx⟩ := map_eq_ok.1 hend
  obtain ⟨howner, hfile⟩ := Prod.mk.inj hx
  exact ⟨x, hrun, howner, hfile, written_of_run (along_roomy shortLife (by decide)) hrun⟩

end LoggerRun
end TradingEcosystem
