import Mathlib.Data.List.Basic
import Mathlib.Logic.Function.Iterate
import TradingEcosystem.Lib.Along

/-!
# TCP sockets

`common/tcp_socket.cpp`.  `send` queues bytes and `sendAndRecv` hands the queue to the kernel, which
may take any part of it, or nothing for the moment, or fail for good.

The loop of `sendAndRecv` starts every `::send` at the front of the buffer, subtracts the `-1` of a
failed call from what is left to send, and drops the queue when it is through.  `faithful_iff` says
what of the kernel's behaviour the output survives: it has to take the queue in pieces that repeat
the front of the buffer, as it does when it takes all of it at once.
-/

set_option autoImplicit false

namespace TradingEcosystem

/-- `TCPBufferSize`. -/
def tcpBufferSize : Nat := 64 * 1024 * 1024

/-- `TCPSocket`: the bytes of the two buffers below their valid indices. -/
structure TCPSocket where
  sendDisconnected : Bool := false
  sendBuffer : List UInt8 := []
  rcvBuffer : List UInt8 := []

/-- What `::send` returns: the number of bytes it took, or `-1` with the error. -/
inductive SendResult where
  | accepted (n : Nat)
  /-- `EAGAIN` or `EWOULDBLOCK`. -/
  | wouldBlock
  /-- Any other error. -/
  | failed
  deriving DecidableEq

/-- The kernel's side of one `sendAndRecv`: its answer to the calls of `::send`, in their order and
by the length asked for. -/
structure Kernel where
  answer : Nat → Nat → SendResult
  /-- What is accepted is part of what was asked. -/
  accepted_le : ∀ {call len n : Nat}, 0 < len → answer call len = .accepted n → 0 < n ∧ n ≤ len

/-- The variables of the sending loop, and the bytes the kernel took so far. -/
structure SendLoop where
  nSend : Int
  calls : Nat
  accepted : List UInt8
  sendDisconnected : Bool

namespace SendLoop

/-- The body of the loop, while there is something to send. -/
def next (kernel : Kernel) (buffer : List UInt8) (l : SendLoop) : SendLoop :=
  if l.nSend > 0 then
    let nSendThisMsg := min (buffer.length : Int) l.nSend
    match kernel.answer l.calls nSendThisMsg.toNat with
    | .accepted n =>
      -- the call starts at the front of the buffer, whatever was sent before
      { l with nSend := l.nSend - n, calls := l.calls + 1, accepted := l.accepted ++ buffer.take n }
    | .wouldBlock => { l with nSend := l.nSend - (-1), calls := l.calls + 1 }
    | .failed => ⟨l.nSend - (-1), l.calls + 1, l.accepted, true⟩
  else l

end SendLoop

namespace TCPSocket

/-- `send`.  The copy into `send_buffer_` looks at no bound; that it fits is asked of the calls
(`Output.Fits`). -/
def send (s : TCPSocket) (data : List UInt8) : TCPSocket :=
  { s with sendBuffer := s.sendBuffer ++ data }

/-- The sending loop of `sendAndRecv` when it is entered. -/
def sendLoop (s : TCPSocket) : SendLoop where
  nSend := min (tcpBufferSize : Int) s.sendBuffer.length
  calls := 0
  accepted := []
  sendDisconnected := s.sendDisconnected

/-- The sending loop after a number of rounds. -/
def sendLoopAfter (s : TCPSocket) (kernel : Kernel) (n : Nat) : SendLoop :=
  (SendLoop.next kernel s.sendBuffer)^[n] s.sendLoop

/-- `sendAndRecv` behind its loop: `next_send_valid_index_ = 0`. -/
def sent (s : TCPSocket) (l : SendLoop) : TCPSocket :=
  { s with sendDisconnected := l.sendDisconnected, sendBuffer := [] }

end TCPSocket

/-! ## The loop -/

namespace SendLoop

variable {kernel : Kernel} {buffer : List UInt8} {l : SendLoop}

theorem next_of_done (h : ¬ l.nSend > 0) : l.next kernel buffer = l := if_neg h

/-- The three ways a round can end. -/
theorem next_cases (kernel : Kernel) (h : 0 < l.nSend) (hb : 0 < buffer.length) :
    (∃ n, kernel.answer l.calls (min (buffer.length : Int) l.nSend).toNat = .accepted n ∧
      0 < n ∧ n ≤ buffer.length ∧ (n : Int) ≤ l.nSend ∧ l.next kernel buffer =
        ⟨l.nSend - n, l.calls + 1, l.accepted ++ buffer.take n, l.sendDisconnected⟩) ∨
    (∃ d, l.next kernel buffer = ⟨l.nSend + 1, l.calls + 1, l.accepted, d⟩) := by
  rw [next, if_pos h]
  cases hk : kernel.answer l.calls (min (buffer.length : Int) l.nSend).toNat with
  | accepted n =>
    obtain ⟨hpos, hle⟩ := kernel.accepted_le (by omega) hk
    exact .inl ⟨n, rfl, hpos, by omega, by omega, by simp [hk]⟩
  | wouldBlock => exact .inr ⟨l.sendDisconnected, by simp [hk]⟩
  | failed => exact .inr ⟨true, by simp [hk]⟩

/-- What the kernel took stays taken. -/
theorem accepted_prefix_next (l : SendLoop) :
    l.accepted <+: (l.next kernel buffer).accepted := by
  rw [next]
  split
  · dsimp only
    split
    · exact List.prefix_append _ _
    · exact List.prefix_refl _
    · exact List.prefix_refl _
  · exact List.prefix_refl _

theorem accepted_prefix_iterate (l : SendLoop) (n : Nat) :
    l.accepted <+: ((next kernel buffer)^[n] l).accepted := by
  induction n generalizing l with
  | zero => exact List.prefix_refl _
  | succ n ih =>
    rw [Function.iterate_succ_apply]
    exact (accepted_prefix_next l).trans (ih _)

/-- A failed call leaves more to send than there is. -/
theorem owed_le_next (hb : 0 < buffer.length) (l : SendLoop) :
    l.accepted.length + l.nSend ≤
      (l.next kernel buffer).accepted.length + (l.next kernel buffer).nSend := by
  by_cases h : l.nSend > 0
  · obtain ⟨n, -, -, hn, -, heq⟩ | ⟨d, heq⟩ := next_cases kernel h hb
    · rw [heq]
      simp only [List.length_append, List.length_take, Nat.min_eq_left hn]
      omega
    · rw [heq]
      dsimp only
      omega
  · exact Int.le_of_eq (by rw [next_of_done h])

theorem owed_le_iterate (kernel : Kernel) (hb : 0 < buffer.length) (l : SendLoop) (n : Nat) :
    l.accepted.length + l.nSend ≤
      ((next kernel buffer)^[n] l).accepted.length + ((next kernel buffer)^[n] l).nSend := by
  induction n generalizing l with
  | zero => exact Int.le_refl _
  | succ n ih =>
    rw [Function.iterate_succ_apply]
    exact Int.le_trans (owed_le_next hb l) (ih _)

/-- The loop is through. -/
def Done (l : SendLoop) : Prop := ¬ l.nSend > 0

/-- From its end on the loop stands still. -/
theorem iterate_of_done {n m : Nat} (h : ((next kernel buffer)^[n] l).Done) (hle : n ≤ m) :
    (next kernel buffer)^[m] l = (next kernel buffer)^[n] l := by
  obtain ⟨k, rfl⟩ := Nat.exists_eq_add_of_le' hle
  rw [Function.iterate_add_apply]
  exact Function.iterate_fixed (next_of_done h) k

/-- It has one result. -/
theorem iterate_unique {n m : Nat} (hn : ((next kernel buffer)^[n] l).Done)
    (hm : ((next kernel buffer)^[m] l).Done) :
    (next kernel buffer)^[n] l = (next kernel buffer)^[m] l := by
  rcases Nat.le_total n m with hle | hle
  · exact (iterate_of_done hn hle).symm
  · exact iterate_of_done hm hle

/-- What the kernel has at any time is the beginning of what it has at the end. -/
theorem accepted_prefix_of_done {n : Nat} (h : ((next kernel buffer)^[n] l).Done) (m : Nat) :
    ((next kernel buffer)^[m] l).accepted <+: ((next kernel buffer)^[n] l).accepted := by
  rcases Nat.le_total m n with hle | hle
  · obtain ⟨k, rfl⟩ := Nat.exists_eq_add_of_le' hle
    rw [Function.iterate_add_apply]
    exact accepted_prefix_iterate _ k
  · exact (iterate_of_done h hle).symm ▸ List.prefix_refl _

end SendLoop

/-- The kernel takes what is left of the buffer, from the given call and position on, in pieces that
are the front of the buffer as well. -/
inductive TakesAll (kernel : Kernel) (buffer : List UInt8) : Nat → Nat → Prop
  | done (call : Nat) : TakesAll kernel buffer call buffer.length
  | piece {call sent n : Nat} : sent < buffer.length →
      kernel.answer call (buffer.length - sent) = .accepted n →
      buffer.take n = (buffer.drop sent).take n →
      TakesAll kernel buffer (call + 1) (sent + n) → TakesAll kernel buffer call sent

/-- One call that takes the whole queue is enough. -/
theorem takesAll_of_whole {kernel : Kernel} {buffer : List UInt8}
    (h : kernel.answer 0 buffer.length = .accepted buffer.length) : TakesAll kernel buffer 0 0 := by
  rcases buffer with _ | ⟨b, buffer⟩
  · exact .done 0
  · refine .piece (Nat.succ_pos _) h rfl ?_
    rw [Nat.zero_add, Nat.zero_add]
    exact .done 1

namespace SendLoop

variable {kernel : Kernel} {buffer : List UInt8}

/-- A piece that continues what was sent is the piece that is due. -/
theorem take_append_take {sent n : Nat} (h : buffer.take sent ++ buffer.take n <+: buffer)
    (hn : n ≤ buffer.length) : buffer.take n = (buffer.drop sent).take n := by
  have hsplit : buffer.take sent ++ buffer.take n <+: buffer.take sent ++ buffer.drop sent := by
    rwa [List.take_append_drop]
  have hdrop := List.prefix_iff_eq_take.1 ((List.prefix_append_right_inj _).1 hsplit)
  rwa [List.length_take, Nat.min_eq_left hn] at hdrop

/-- A loop that comes to its end inside the queue was fed in pieces of the right bytes. -/
theorem takesAll_of_done (hb : 0 < buffer.length) (n : Nat) {l : SendLoop} {sent : Nat}
    (hsent : sent ≤ buffer.length) (hleft : l.nSend = buffer.length - sent)
    (hacc : l.accepted = buffer.take sent) (hdone : ((next kernel buffer)^[n] l).Done)
    (hpre : ((next kernel buffer)^[n] l).accepted <+: buffer) :
    TakesAll kernel buffer l.calls sent := by
  induction n generalizing l sent with
  | zero =>
    have hend : sent = buffer.length := by
      have hd : ¬ l.nSend > 0 := hdone
      omega
    exact hend ▸ .done _
  | succ n ih =>
    rw [Function.iterate_succ_apply] at hdone hpre
    rcases Nat.lt_or_ge sent buffer.length with hlt | hge
    · have hpos : 0 < l.nSend := by omega
      have hasked : (min (buffer.length : Int) l.nSend).toNat = buffer.length - sent := by omega
      obtain ⟨m, hans, hpos, hm, hle, heq⟩ | ⟨d, heq⟩ :=
        next_cases kernel hpos hb
      · rw [heq] at hdone hpre
        have hsofar := (accepted_prefix_iterate _ n).trans hpre
        rw [hacc] at hsofar
        have hpiece := take_append_take hsofar hm
        refine .piece hlt (hasked ▸ hans) hpiece (ih ?_ ?_ ?_ hdone hpre)
        · omega
        · dsimp only
          omega
        · rw [hacc, hpiece, List.take_add]
      · -- with one failed call the loop ends only beyond the end of the queue
        have howed := owed_le_iterate kernel hb (l.next kernel buffer) n
        have hlen := hpre.length_le
        have hd : ¬ ((next kernel buffer)^[n] (l.next kernel buffer)).nSend > 0 := hdone
        rw [heq] at howed hlen hd
        simp only [hacc, List.length_take, Nat.min_eq_left hsent] at howed hlen hd
        omega
    · exact (Nat.le_antisymm hge hsent) ▸ .done _

/-- Fed in such pieces the loop comes to its end and the kernel has the queue. -/
theorem done_of_takesAll {call sent : Nat} (h : TakesAll kernel buffer call sent) {l : SendLoop}
    (hsent : sent ≤ buffer.length) (hcall : l.calls = call)
    (hleft : l.nSend = buffer.length - sent) (hacc : l.accepted = buffer.take sent) :
    ∃ n, ((next kernel buffer)^[n] l).Done ∧ ((next kernel buffer)^[n] l).accepted = buffer := by
  induction h generalizing l with
  | done call =>
    refine ⟨0, ?_, ?_⟩
    · have hd : ¬ l.nSend > 0 := by omega
      exact hd
    · rw [Function.iterate_zero_apply, hacc, List.take_length]
  | @piece call sent n hlt hans hpiece _ ih =>
    subst hcall
    have hasked : (min (buffer.length : Int) l.nSend).toNat = buffer.length - sent := by omega
    have hn := kernel.accepted_le (by omega) hans
    have heq : l.next kernel buffer =
        ⟨l.nSend - n, l.calls + 1, l.accepted ++ buffer.take n, l.sendDisconnected⟩ := by
      rw [next, if_pos (by omega)]
      simp only [hasked, hans]
    obtain ⟨m, hdone, hall⟩ := ih (l := l.next kernel buffer) (by omega) (by rw [heq])
      (by rw [heq]; dsimp only; omega) (by rw [heq, hacc, hpiece, List.take_add])
    exact ⟨m + 1, by rwa [Function.iterate_succ_apply], by rwa [Function.iterate_succ_apply]⟩

end SendLoop

/-! ## Runs -/

/-- A socket, with all the data passed to `send` and all the bytes the kernel took. -/
structure Output where
  socket : TCPSocket := {}
  passed : List UInt8 := []
  accepted : List UInt8 := []

/-- A call on the socket; the kernel answers as it likes. -/
inductive OutputCall where
  | send (data : List UInt8)
  | sendAndRecv (kernel : Kernel)

namespace Output

/-- What a call does, when it returns. -/
def Next (o : Output) : OutputCall → Output → Prop
  | .send data, o' => o' = ⟨o.socket.send data, o.passed ++ data, o.accepted⟩
  | .sendAndRecv kernel, o' => ∃ n, (o.socket.sendLoopAfter kernel n).Done ∧
      o' = ⟨o.socket.sent (o.socket.sendLoopAfter kernel n), o.passed,
        o.accepted ++ (o.socket.sendLoopAfter kernel n).accepted⟩

/-- The data fits the buffer behind what is queued. -/
def Fits (o : Output) : OutputCall → Prop
  | .send data => o.socket.sendBuffer.length + data.length ≤ tcpBufferSize
  | .sendAndRecv _ => True

/-- Nothing was skipped, repeated or reordered, and nothing is lost on a live socket. -/
structure Intact (o : Output) : Prop where
  taken : o.accepted <+: o.passed
  queued : o.socket.sendDisconnected = false → o.accepted ++ o.socket.sendBuffer = o.passed

/-- The call returns, the bytes the kernel has are at any time the first ones passed to `send`, and
the rest is still queued afterwards. -/
def Faithful (o : Output) (call : OutputCall) : Prop :=
  (∀ kernel, call = .sendAndRecv kernel → (∃ n, (o.socket.sendLoopAfter kernel n).Done) ∧
    ∀ n, o.accepted ++ (o.socket.sendLoopAfter kernel n).accepted <+: o.passed) ∧
  ∀ o', o.Next call o' → o'.Intact

/-- The kernel takes the whole queue, in pieces that repeat its front. -/
def Taken (o : Output) : OutputCall → Prop
  | .send _ => True
  | .sendAndRecv kernel => TakesAll kernel o.socket.sendBuffer 0 0

/-- What holds between the calls of a run whose calls were all faithful. -/
structure Steady (o : Output) : Prop where
  whole : o.accepted ++ o.socket.sendBuffer = o.passed
  fits : o.socket.sendBuffer.length ≤ tcpBufferSize

variable {o o' : Output}

theorem Steady.intact (h : o.Steady) : o.Intact where
  taken := h.whole ▸ List.prefix_append _ _
  queued := fun _ => h.whole

theorem Steady.nSend_sendLoop (h : o.Steady) :
    o.socket.sendLoop.nSend = o.socket.sendBuffer.length - (0 : Nat) := by
  have hfits := h.fits
  rw [TCPSocket.sendLoop]
  dsimp only
  omega

theorem Steady.next (h : o.Steady) {call : OutputCall} (hf : o.Fits call) (ht : o.Taken call)
    (hn : o.Next call o') : o'.Steady := by
  cases call with
  | send data =>
    obtain rfl := hn
    refine ⟨?_, ?_⟩
    · change o.accepted ++ (o.socket.sendBuffer ++ data) = o.passed ++ data
      rw [← List.append_assoc, h.whole]
    · change (o.socket.sendBuffer ++ data).length ≤ tcpBufferSize
      rw [List.length_append]
      exact hf
  | sendAndRecv kernel =>
    obtain ⟨n, hdone, rfl⟩ := hn
    obtain ⟨m, hdone', hall⟩ := SendLoop.done_of_takesAll ht (Nat.zero_le _)
      (l := o.socket.sendLoop) rfl h.nSend_sendLoop rfl
    have heq : o.socket.sendLoopAfter kernel n = o.socket.sendLoopAfter kernel m :=
      SendLoop.iterate_unique hdone hdone'
    refine ⟨?_, Nat.zero_le _⟩
    change o.accepted ++ (o.socket.sendLoopAfter kernel n).accepted ++ [] = o.passed
    rw [List.append_nil, heq, TCPSocket.sendLoopAfter, hall, h.whole]

/-- **One call is faithful** exactly when the kernel takes the queue in pieces that repeat its
front. -/
theorem faithful_iff_taken (h : o.Steady) {call : OutputCall} (hf : o.Fits call) :
    o.Faithful call ↔ o.Taken call := by
  refine ⟨fun hgood => ?_, fun ht => ⟨?_, fun o' hn => (h.next hf ht hn).intact⟩⟩
  · cases call with
    | send data => trivial
    | sendAndRecv kernel =>
      obtain ⟨⟨n, hdone⟩, hpre⟩ := hgood.1 kernel rfl
      have hpre := hpre n
      rw [← h.whole, List.prefix_append_right_inj] at hpre
      rcases Nat.eq_zero_or_pos o.socket.sendBuffer.length with hb | hb
      · rw [Taken, List.eq_nil_of_length_eq_zero hb]
        exact .done 0
      · exact SendLoop.takesAll_of_done hb n (Nat.zero_le _) h.nSend_sendLoop rfl hdone hpre
  · rintro kernel rfl
    obtain ⟨n, hdone, hall⟩ := SendLoop.done_of_takesAll ht (Nat.zero_le _)
      (l := o.socket.sendLoop) rfl h.nSend_sendLoop rfl
    refine ⟨⟨n, hdone⟩, fun m => ?_⟩
    rw [← h.whole, List.prefix_append_right_inj]
    exact hall ▸ SendLoop.accepted_prefix_of_done hdone m

/-- **TCP output is faithful** exactly in the runs in which the kernel takes every queue in pieces
that repeat its front. -/
theorem along_faithful_iff {calls : List OutputCall} (hf : Run.Along Next Fits {} calls) :
    Run.Along Next Faithful {} calls ↔ Run.Along Next Taken {} calls :=
  Run.along_congr Steady Fits (fun _ _ h hf => faithful_iff_taken h hf)
    (fun _ _ _ h hf ht hn => h.next hf ht hn) ⟨rfl, Nat.zero_le _⟩ hf

/-- A kernel that takes everything. -/
def greedy : Kernel where
  answer := fun _ len => .accepted len
  accepted_le := fun h heq => by
    obtain rfl := SendResult.accepted.inj heq
    exact ⟨h, Nat.le_refl _⟩

/-- A kernel that takes a byte at a time. -/
def bytewise : Kernel where
  answer := fun _ _ => .accepted 1
  accepted_le := fun h heq => by
    obtain rfl := SendResult.accepted.inj heq
    exact ⟨Nat.one_pos, h⟩

theorem along_faithful_greedy :
    Run.Along Next Faithful {} [.send [1, 2], .sendAndRecv greedy, .send [3]] := by
  have hf : Run.Along Next Fits {} [.send [1, 2], .sendAndRecv greedy, .send [3]] := by
    refine ⟨(by decide : 0 + 2 ≤ tcpBufferSize), ?_⟩
    rintro _ rfl
    refine ⟨trivial, ?_⟩
    rintro _ ⟨n, -, rfl⟩
    exact ⟨(by decide : 0 + 1 ≤ tcpBufferSize), fun _ _ => trivial⟩
  refine (along_faithful_iff hf).2 ⟨trivial, ?_⟩
  rintro _ rfl
  exact ⟨takesAll_of_whole rfl, fun _ _ => ⟨trivial, fun _ _ => trivial⟩⟩

/-- Two bytes, taken one at a time: the first is sent twice. -/
theorem not_along_faithful_bytewise :
    ¬ ∀ calls, Run.Along Next Fits {} calls → Run.Along Next Faithful {} calls := by
  intro h
  have hf : Run.Along Next Fits {} [.send [1, 2], .sendAndRecv bytewise] := by
    refine ⟨(by decide : 0 + 2 ≤ tcpBufferSize), ?_⟩
    rintro _ rfl
    exact ⟨trivial, fun _ _ => trivial⟩
  have hpre := (((h _ hf).2 _ rfl).1.1 bytewise rfl).2 2
  exact absurd hpre (by decide)

end Output
end TradingEcosystem
