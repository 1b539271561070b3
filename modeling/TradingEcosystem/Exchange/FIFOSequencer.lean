import TradingEcosystem.Common.Messages
import TradingEcosystem.Lib.StableSort

/-!
# The FIFO sequencer

`exchange/order_server/fifo_sequencer.h`: requests are collected with their receive times while the
sockets are read, and sorted by time before they go to the matching engine.  `std::sort` is a
parameter here, with the contract the standard gives it: it may leave requests of one receive time
in any order, and one read of a socket gives one receive time to everything in it.
-/

set_option autoImplicit false

namespace TradingEcosystem
namespace Exchange

open StableSort

/-- `Nanos`, signed. -/
abbrev Nanos := Int64

def meMaxPendingRequests : Nat := 1024

/-- `RecvTimeClientRequest`. -/
structure RecvTimeClientRequest where
  recvTime : Nanos := 0
  request : MEClientRequest
  deriving DecidableEq

/-- `operator<` compares the receive times, which is the order of their values. -/
def RecvTimeClientRequest.time (r : RecvTimeClientRequest) : ℤ := r.recvTime.toInt

theorem RecvTimeClientRequest.ext_time {r s : RecvTimeClientRequest} (ht : r.time = s.time)
    (hr : r.request = s.request) : r = s := by
  cases r; cases s
  simp only [time, Int64.toInt_inj] at ht hr
  rw [ht, hr]

/-- `FIFOSequencer`: the requests below `pending_size_`. -/
structure FIFOSequencer where
  pendingClientRequests : List RecvTimeClientRequest := []

namespace FIFOSequencer

/-- `addClientRequest`. -/
def addClientRequest (f : FIFOSequencer) (rxTime : Nanos) (clientRequest : MEClientRequest) :
    Except Fault FIFOSequencer :=
  if f.pendingClientRequests.length ≥ meMaxPendingRequests then
    .error (.fatal "To many pending requests")
  else
    .ok { pendingClientRequests := f.pendingClientRequests ++ [⟨rxTime, clientRequest⟩] }

/-- `sequenceAndPublish`, with the sorting function the library provides: what is written to the
queue of the matching engine, in the order of the writes. -/
def sequenceAndPublish (sort : List RecvTimeClientRequest → List RecvTimeClientRequest)
    (f : FIFOSequencer) : FIFOSequencer × List MEClientRequest :=
  if f.pendingClientRequests = [] then (f, [])
  else ({}, (sort f.pendingClientRequests).map (·.request))

end FIFOSequencer

/-! ## Batches -/

/-- What one read of a socket hands to the sequencer: the requests `recvCallback` accepted, all with
the time of the read. -/
structure SocketRead where
  socket : Nat
  rxTime : Nanos
  requests : List MEClientRequest

/-- The requests of a batch of reads with their times, in the order they are added. -/
def pendingOf (reads : List SocketRead) : List RecvTimeClientRequest :=
  reads.flatMap fun r => r.requests.map fun q => ⟨r.rxTime, q⟩

namespace FIFOSequencer

/-- Adding requests one after the other. -/
def addAll (f : FIFOSequencer) : List RecvTimeClientRequest → Except Fault FIFOSequencer
  | [] => .ok f
  | r :: rest => do
    let f ← f.addClientRequest r.recvTime r.request
    f.addAll rest

/-- A batch: the reads of one round, and then `recvFinishedCallback`. -/
def runBatch (sort : List RecvTimeClientRequest → List RecvTimeClientRequest) (f : FIFOSequencer)
    (reads : List SocketRead) : Except Fault (FIFOSequencer × List MEClientRequest) := do
  let f ← f.addAll (pendingOf reads)
  return sequenceAndPublish sort f

/-- Batch after batch: what each of them writes. -/
def runBatches (sort : List RecvTimeClientRequest → List RecvTimeClientRequest) :
    FIFOSequencer → List (List SocketRead) → Except Fault (List (List MEClientRequest))
  | _, [] => .ok []
  | f, reads :: rest => do
    let (f, written) ← f.runBatch sort reads
    let more ← runBatches sort f rest
    return written :: more

variable {sort : List RecvTimeClientRequest → List RecvTimeClientRequest}

theorem addAll_eq (l : List RecvTimeClientRequest) {f : FIFOSequencer}
    (h : f.pendingClientRequests.length + l.length ≤ meMaxPendingRequests) :
    f.addAll l = .ok { pendingClientRequests := f.pendingClientRequests ++ l } := by
  induction l generalizing f with
  | nil => rw [addAll, List.append_nil]
  | cons r rest ih =>
    rw [List.length_cons] at h
    have hroom : ¬ f.pendingClientRequests.length ≥ meMaxPendingRequests := by omega
    rw [addAll, addClientRequest, if_neg hroom, ok_bind, ih]
    · simp
    · simp only [List.length_append, List.length_singleton]
      omega

/-- The request that does not fit is fatal. -/
theorem addAll_full (l : List RecvTimeClientRequest) {f : FIFOSequencer}
    (hf : f.pendingClientRequests.length ≤ meMaxPendingRequests)
    (h : meMaxPendingRequests < f.pendingClientRequests.length + l.length) :
    f.addAll l = .error (.fatal "To many pending requests") := by
  induction l generalizing f with
  | nil => exact absurd h (Nat.not_lt.2 hf)
  | cons r rest ih =>
    rw [addAll, addClientRequest]
    split
    · rfl
    · next hroom =>
      rw [List.length_cons] at h
      rw [ok_bind]
      refine ih ?_ ?_ <;> simp only [List.length_append, List.length_singleton] <;> omega

/-- Nothing is left behind. -/
theorem pending_sequenceAndPublish (sort : List RecvTimeClientRequest → List RecvTimeClientRequest)
    (f : FIFOSequencer) : (f.sequenceAndPublish sort).1.pendingClientRequests = [] := by
  rw [sequenceAndPublish]
  split
  · assumption
  · rfl

theorem sequenceAndPublish_eq (hs : Sorts RecvTimeClientRequest.time sort)
    (l : List RecvTimeClientRequest) : sequenceAndPublish sort { pendingClientRequests := l } =
      ({}, (sort l).map (·.request)) := by
  rw [sequenceAndPublish]
  split
  · next hl =>
    dsimp only at hl
    subst hl
    rw [(hs.perm []).eq_nil]
    rfl
  · rfl

theorem runBatches_eq (hs : Sorts RecvTimeClientRequest.time sort)
    (batches : List (List SocketRead))
    (h : ∀ b ∈ batches, (pendingOf b).length ≤ meMaxPendingRequests) :
    runBatches sort {} batches =
      .ok (batches.map fun b => (sort (pendingOf b)).map (·.request)) := by
  induction batches with
  | nil => rfl
  | cons b rest ih =>
    have hb : FIFOSequencer.addAll {} (pendingOf b) = .ok ⟨pendingOf b⟩ := by
      rw [addAll_eq _ (by simpa using h b List.mem_cons_self)]
      rfl
    rw [runBatches, runBatch, hb, ok_bind, pure_eq_ok, ok_bind, sequenceAndPublish_eq hs]
    dsimp only
    rw [ih fun b hb => h b (List.mem_cons_of_mem _ hb)]
    rfl

end FIFOSequencer

/-! ## The order of a client's requests -/

/-- The requests are those of the pending list, each once, by receive time and, for one receive
time, in the order they were added. -/
def InOrder (pending : List RecvTimeClientRequest) (written : List MEClientRequest) : Prop :=
  ∃ l, StableSorting RecvTimeClientRequest.time pending l ∧ written = l.map (·.request)

/-- On one socket the receive times never go back. -/
def TimesNeverDecrease (reads : List SocketRead) : Prop :=
  reads.Pairwise fun r r' => r.socket = r'.socket → r.rxTime.toInt ≤ r'.rxTime.toInt

/-- All requests of a client come from the socket that is bound to the client. -/
def OneSocketEach (reads : List SocketRead) : Prop :=
  ∀ r ∈ reads, ∀ r' ∈ reads, ∀ q ∈ r.requests, ∀ q' ∈ r'.requests,
    q.clientId = q'.clientId → r.socket = r'.socket

/-- Every client's requests are written in the order the order server accepted them. -/
def ClientOrder (reads : List SocketRead) (written : List MEClientRequest) : Prop :=
  ∀ c, written.filter (fun q => q.clientId = c) =
    (reads.flatMap (·.requests)).filter fun q => q.clientId = c

/-- What the sequencer is for: every batch is written in order, and with times that do not go back
on a socket no client's requests change places. -/
def Sequenced (sort : List RecvTimeClientRequest → List RecvTimeClientRequest)
    (batches : List (List SocketRead)) : Prop :=
  ∃ outs, FIFOSequencer.runBatches sort {} batches = .ok outs ∧
    List.Forall₂ (fun reads out => InOrder (pendingOf reads) out) batches outs ∧
    (TimesNeverDecrease batches.flatten → OneSocketEach batches.flatten →
      ClientOrder batches.flatten outs.flatten)

section Order

variable {sort : List RecvTimeClientRequest → List RecvTimeClientRequest} {reads : List SocketRead}

theorem map_request_pendingOf (reads : List SocketRead) :
    (pendingOf reads).map (·.request) = reads.flatMap (·.requests) := by
  simp [pendingOf, List.map_flatMap, Function.comp_def]

/-- Within a batch a client's requests are added in the order of their times. -/
theorem ordered_client (ht : TimesNeverDecrease reads) (ho : OneSocketEach reads) (c : ClientId) :
    Ordered RecvTimeClientRequest.time
      ((pendingOf reads).filter fun r => r.request.clientId = c) := by
  have hpair : (pendingOf reads).Pairwise fun r s =>
      r.request.clientId = s.request.clientId → r.time ≤ s.time := by
    rw [pendingOf, List.pairwise_flatMap]
    refine ⟨fun r _ => ?_, ?_⟩
    · -- one read, one time
      rw [List.pairwise_map]
      exact List.pairwise_of_forall fun _ _ _ => le_refl _
    · refine ht.imp_of_mem fun {r r'} hr hr' hle x hx y hy hclient => ?_
      obtain ⟨q, hq, rfl⟩ := List.mem_map.1 hx
      obtain ⟨q', hq', rfl⟩ := List.mem_map.1 hy
      exact hle (ho r hr r' hr' q hq q' hq' hclient)
  refine (hpair.filter _).imp_of_mem fun {r s} hr hs hle => hle ?_
  have hrc : r.request.clientId = c := by simpa using (List.mem_filter.1 hr).2
  have hsc : s.request.clientId = c := by simpa using (List.mem_filter.1 hs).2
  exact hrc.trans hsc.symm

/-- A batch that is written in order keeps the order of every client. -/
theorem InOrder.clientOrder {out : List MEClientRequest} (h : InOrder (pendingOf reads) out)
    (ht : TimesNeverDecrease reads) (ho : OneSocketEach reads) : ClientOrder reads out := by
  obtain ⟨l, hl, rfl⟩ := h
  intro c
  have hfilter := hl.filter_eq (ordered_client ht ho c)
  rw [← map_request_pendingOf, List.filter_map, List.filter_map]
  exact congrArg (List.map (·.request)) hfilter

/-- Batches that are written in order keep the order of every client over all of them. -/
theorem clientOrder_flatten {batches : List (List SocketRead)} {outs : List (List MEClientRequest)}
    (h : List.Forall₂ (fun reads out => InOrder (pendingOf reads) out) batches outs)
    (ht : TimesNeverDecrease batches.flatten) (ho : OneSocketEach batches.flatten) :
    ClientOrder batches.flatten outs.flatten := by
  induction h with
  | nil => exact fun _ => rfl
  | @cons reads out batches outs hb _ ih =>
    rw [List.flatten_cons] at ht ho
    obtain ⟨ht₁, ht₂, -⟩ := List.pairwise_append.1 ht
    have ho₁ : OneSocketEach reads := fun r hr r' hr' =>
      ho r (List.mem_append_left _ hr) r' (List.mem_append_left _ hr')
    have ho₂ : OneSocketEach batches.flatten := fun r hr r' hr' =>
      ho r (List.mem_append_right _ hr) r' (List.mem_append_right _ hr')
    intro c
    rw [List.flatten_cons, List.flatten_cons, List.flatMap_append, List.filter_append,
      List.filter_append, hb.clientOrder ht₁ ho₁ c, ih ht₂ ho₂ c]

/-- Writing in order says that the sort was stable, although the times are not written. -/
theorem stableSorting_of_inOrder (hs : Sorts RecvTimeClientRequest.time sort)
    {l : List RecvTimeClientRequest} (h : InOrder l ((sort l).map (·.request))) :
    StableSorting RecvTimeClientRequest.time l (sort l) := by
  obtain ⟨l', hl', hmap⟩ := h
  rw [eq_of_map_eq (hs.ordered l) hl'.ordered ((hs.perm l).trans hl'.perm.symm)
    (fun _ _ => RecvTimeClientRequest.ext_time) hmap]
  exact hl'

/-- A tie in a batch is a tie some sorting function resolves the wrong way. -/
theorem not_ties_of_sequenced {batches : List (List SocketRead)}
    (h : ∀ b ∈ batches, (pendingOf b).length ≤ meMaxPendingRequests)
    (hall : ∀ sort, Sorts RecvTimeClientRequest.time sort → Sequenced sort batches) :
    ∀ b ∈ batches, ¬ Ties RecvTimeClientRequest.time (pendingOf b) := by
  intro b hb hties
  obtain ⟨sort, hs, hnot⟩ := exists_sorts_not_stable hties
  obtain ⟨outs, hrun, horder, -⟩ := hall sort hs
  rw [FIFOSequencer.runBatches_eq hs batches h] at hrun
  obtain rfl := Except.ok.inj hrun
  rw [List.forall₂_map_right_iff, List.forall₂_same] at horder
  exact hnot (stableSorting_of_inOrder hs (horder b hb))

/-- **The sequencer keeps the order of arrival for every sorting function** exactly when no batch
holds two different requests with one receive time. -/
theorem sequenced_iff (batches : List (List SocketRead))
    (h : ∀ b ∈ batches, (pendingOf b).length ≤ meMaxPendingRequests) :
    (∀ sort, Sorts RecvTimeClientRequest.time sort → Sequenced sort batches) ↔
      ∀ b ∈ batches, ¬ Ties RecvTimeClientRequest.time (pendingOf b) := by
  refine ⟨not_ties_of_sequenced h, fun hties sort hs => ?_⟩
  have horder : List.Forall₂ (fun reads out => InOrder (pendingOf reads) out) batches
      (batches.map fun b => (sort (pendingOf b)).map (·.request)) := by
    rw [List.forall₂_map_right_iff, List.forall₂_same]
    exact fun b hb => ⟨_, hs.stable (hties b hb), rfl⟩
  exact ⟨_, FIFOSequencer.runBatches_eq hs batches h, horder, clientOrder_flatten horder⟩

/-- A `NEW` request of a client with this order id. -/
def newRequest (clientId : ClientId) (orderId : OrderId) : MEClientRequest where
  requestType := .new
  clientId := clientId
  orderId := orderId

/-- Two reads of different sockets at different times, the later one first. -/
theorem sequenced_two_reads :
    Sequenced (stableSort RecvTimeClientRequest.time)
      [[⟨0, 5, [newRequest 1 1]⟩, ⟨1, 3, [newRequest 2 1]⟩]] := by
  refine (sequenced_iff [[⟨0, 5, [newRequest 1 1]⟩, ⟨1, 3, [newRequest 2 1]⟩]] (by decide)).2 ?_ _
    sorts_stableSort
  unfold Ties
  decide

/-- One read with two requests of one client has one time for both. -/
theorem not_sequenced_one_read :
    ¬ ∀ sort, Sorts RecvTimeClientRequest.time sort →
      Sequenced sort [[⟨0, 5, [newRequest 1 1, newRequest 1 2]⟩]] := by
  intro hall
  refine not_ties_of_sequenced (by decide) hall _ List.mem_cons_self ?_
  unfold Ties
  decide

end Order

end Exchange
end TradingEcosystem
