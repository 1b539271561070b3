import TradingEcosystem.Exchange.OrderServer
import TradingEcosystem.Trading.OrderGateway
import TradingEcosystem.Lib.Along

/-!
# A session's two directions

The order server on one machine and the gateways of its clients on others, with requests and
responses in any order.  A session is meant to count each direction by itself: the server accepts
request number `a + 1` after `a` accepted ones, and sends response number `b + 1` after `b` sent
ones, which is the number the gateway waits for.

The server counts both on one table entry, which is therefore `a + b + 1` (`SessionAt.counter`).
`independent_iff` says what is left: a step is right exactly when the other direction has not been
used yet, or a request carries neither of the two numbers in question.

A request is received when `handleRequest` sees it; `recvCallback_encodeAll` splits a read of the
socket into these steps.  A response is delivered as it was drained, with the number the server
sends for it.
-/

set_option autoImplicit false

namespace TradingEcosystem
namespace Session

open Exchange Trading Run

/-- The server, the gateways, and the counts a session is about. -/
structure System where
  server : OrderServer
  gateway : ClientId → OrderGateway
  /-- Requests of the client handed to the sequencer. -/
  accepted : ClientId → Nat
  /-- Responses sent to the client. -/
  responded : ClientId → Nat
  /-- Whether all requests of the client so far were numbered by its gateway. -/
  ofGateway : ClientId → Bool

/-- What can happen: a request comes in, the sockets have been read, a response goes out. -/
inductive Event where
  | request (socket : Socket) (rxTime : Nanos) (request : OMClientRequest)
  | finished
  | response (response : MEClientResponse)

def System.init : System where
  server := .init
  gateway := fun clientId => { clientId }
  accepted := fun _ => 0
  responded := fun _ => 0
  ofGateway := fun _ => true

/-- The socket is the client's, or becomes it. -/
def OwnSocket (s : OrderServer) (clientId : ClientId) (socket : Socket) : Prop :=
  s.clientIdSocket clientId = none ∨ s.clientIdSocket clientId = some socket

instance (s : OrderServer) (c : ClientId) (k : Socket) : Decidable (OwnSocket s c k) :=
  inferInstanceAs (Decidable (_ ∨ _))

/-- The requests a step of the server handed to the sequencer. -/
def handedOver (s s' : OrderServer) : Nat :=
  s'.fifoSequencer.pendingClientRequests.length - s.fifoSequencer.pendingClientRequests.length

/-- The gateway sends a request, if the one that arrived is the one it sends. -/
def sendsNext (g : OrderGateway) (r : OMClientRequest) : Bool :=
  (g.sendRequest r.meClientRequest).2.flatten = omClientRequestCodec.encode r

variable (sort : List RecvTimeClientRequest → List RecvTimeClientRequest)

/-- One step of the system. -/
def System.step (x : System) : Event → Except Fault System
  | .request socket rxTime r => do
    let c := r.meClientRequest.clientId
    let s ← x.server.handleRequest socket rxTime r
    if OwnSocket x.server c socket then
      let g := (x.gateway c).sendRequest r.meClientRequest
      return { x with
        server := s
        gateway := Function.update x.gateway c g.1
        accepted := Function.update x.accepted c (x.accepted c + handedOver x.server s)
        ofGateway := Function.update x.ofGateway c (x.ofGateway c && sendsNext (x.gateway c) r) }
    else return { x with server := s }
  | .finished => .ok { x with server := (x.server.recvFinishedCallback sort).1 }
  | .response r => do
    let c := r.clientId
    let (s, _) ← x.server.sendResponse r
    let g := (x.gateway c).handleResponse ⟨x.server.clientIdOutgoingSeqNum c, r⟩
    return { x with
      server := s
      gateway := Function.update x.gateway c g.1
      responded := Function.update x.responded c (x.responded c + 1) }

def Next (x : System) (e : Event) (x' : System) : Prop := x.step sort e = .ok x'

/-- Client ids are in range, and responses go to clients that have a socket. -/
def Valid (x : System) : Event → Prop
  | .request _ _ r => r.meClientRequest.clientId.toNat < meMaxNumClients
  | .finished => True
  | .response r => r.clientId.toNat < meMaxNumClients ∧ x.server.clientIdSocket r.clientId ≠ none

/-- **What a session promises**, step by step.  A request that comes on the client's own socket is
handed to the sequencer exactly when its number is one more than the number of accepted ones, and
so is every request a gateway numbers consecutively; a response carries one more than the number of
responses so far, and the gateway passes it on. -/
def StepOk (x : System) : Event → Prop
  | .request socket rxTime r =>
    let c := r.meClientRequest.clientId
    ∃ s, x.server.handleRequest socket rxTime r = .ok s ∧ (OwnSocket x.server c socket →
      (handedOver x.server s = 1 ↔ r.seqNum = .ofNat (x.accepted c + 1)) ∧
      (x.ofGateway c = true → sendsNext (x.gateway c) r = true → handedOver x.server s = 1))
  | .finished => True
  | .response r =>
    let c := r.clientId
    ∃ s socket, x.server.sendResponse r =
        .ok (s, OrderServer.responseSends socket (.ofNat (x.responded c + 1)) r) ∧
      ((x.gateway c).handleResponse ⟨.ofNat (x.responded c + 1), r⟩).2 = some r

/-- The condition: no response has been sent to the client, or the request has neither the number
that is due nor the one that is due in the shared count, and there is room for it; no request of
the client has been accepted.  Counts are those of 64-bit counters. -/
def StepMeets (x : System) : Event → Prop
  | .request socket _ r =>
    let c := r.meClientRequest.clientId
    OwnSocket x.server c socket →
      (r.seqNum = .ofNat (x.accepted c + x.responded c + 1) →
        x.server.fifoSequencer.pendingClientRequests.length < meMaxPendingRequests) ∧
      (UInt64.ofNat (x.responded c) = 0 ∨ r.seqNum ≠ .ofNat (x.accepted c + 1) ∧
        r.seqNum ≠ .ofNat (x.accepted c + x.responded c + 1))
  | .finished => True
  | .response r => UInt64.ofNat (x.accepted r.clientId) = 0

/-- Where a session is: the number in the server's table, the gateway, the counts of the two
directions, and whether the gateway numbered all requests. -/
structure SessionAt (c : ClientId) (counter : UInt64) (g : OrderGateway) (accepted responded : Nat)
    (ofGateway : Bool) : Prop where
  counter : counter = .ofNat (accepted + responded + 1)
  clientId : g.clientId = c
  nextExp : g.nextExpResponseSeqNum = .ofNat (responded + 1)
  nextOutgoing : ofGateway = true → g.nextOutgoingSeqNum = .ofNat (accepted + 1)

/-- **The invariant**: the one counter stands for both directions, and each gateway is where its
client's session is. -/
def InStep (x : System) : Prop :=
  ∀ c : ClientId, SessionAt c (x.server.clientIdOutgoingSeqNum c) (x.gateway c) (x.accepted c)
    (x.responded c) (x.ofGateway c)

theorem inStep_init : InStep .init := fun _ => ⟨rfl, rfl, rfl, fun _ => rfl⟩

/-- A step that moves one session only. -/
theorem InStep.update {x x' : System} (h : InStep x) {c : ClientId} {n : UInt64} {g : OrderGateway}
    {a b : Nat} {o : Bool} (hat : SessionAt c n g a b o)
    (hn : x'.server.clientIdOutgoingSeqNum = Function.update x.server.clientIdOutgoingSeqNum c n)
    (hg : x'.gateway = Function.update x.gateway c g)
    (ha : x'.accepted = Function.update x.accepted c a)
    (hb : x'.responded = Function.update x.responded c b)
    (ho : x'.ofGateway = Function.update x.ofGateway c o) : InStep x' := by
  intro c'
  rw [hn, hg, ha, hb, ho]
  by_cases hc : c' = c
  · subst hc
    simpa only [Function.update_self] using hat
  · simpa only [Function.update_of_ne hc] using h c'

/-! ## The counters -/

theorem ofNat_eq_iff {m n : Nat} : UInt64.ofNat m = .ofNat n ↔ m % 2 ^ 64 = n % 2 ^ 64 := by
  rw [← UInt64.toNat_inj, UInt64.toNat_ofNat', UInt64.toNat_ofNat']

theorem ofNat_eq_zero_iff {n : Nat} : UInt64.ofNat n = 0 ↔ n % 2 ^ 64 = 0 :=
  ofNat_eq_iff (n := 0)

theorem sendsNext_iff {g : OrderGateway} {r : OMClientRequest} :
    sendsNext g r = true ↔ r.seqNum = g.nextOutgoingSeqNum := by
  rw [sendsNext, decide_eq_true_iff, OrderGateway.flatten_sendRequest,
    omClientRequestCodec.encode_injective.eq_iff]
  constructor
  · exact fun h => (congrArg OMClientRequest.seqNum h).symm
  · exact fun h => by rw [← h]

/-! ## One request -/

section Request

variable {s : OrderServer} {socket : Socket} (rxTime : Nanos) {r : OMClientRequest}

/-- A request with the number in the table is handed over. -/
theorem handleRequest_due (hc : r.meClientRequest.clientId.toNat < meMaxNumClients)
    (hs : OwnSocket s r.meClientRequest.clientId socket)
    (hseq : r.seqNum = s.clientIdOutgoingSeqNum r.meClientRequest.clientId)
    (hroom : s.fifoSequencer.pendingClientRequests.length < meMaxPendingRequests) :
    ∃ s', s.handleRequest socket rxTime r = .ok s' ∧ handedOver s s' = 1 ∧
      s'.clientIdOutgoingSeqNum = Function.update s.clientIdOutgoingSeqNum
        r.meClientRequest.clientId (s.clientIdOutgoingSeqNum r.meClientRequest.clientId + 1) := by
  have hsame : (s.bindSocket r.meClientRequest.clientId socket).clientIdOutgoingSeqNum =
      s.clientIdOutgoingSeqNum := by
    rw [OrderServer.bindSocket]
    split <;> rfl
  rw [OrderServer.handleRequest_of_bound hc hs, if_pos hseq, FIFOSequencer.addClientRequest,
    if_neg (Nat.not_le.2 hroom)]
  refine ⟨_, rfl, ?_, ?_⟩
  · simp [handedOver]
  · dsimp only [OrderServer.countOutgoing]
    rw [hsame]

/-- The request that is due and does not fit stops the server. -/
theorem handleRequest_full (hc : r.meClientRequest.clientId.toNat < meMaxNumClients)
    (hs : OwnSocket s r.meClientRequest.clientId socket)
    (hseq : r.seqNum = s.clientIdOutgoingSeqNum r.meClientRequest.clientId)
    (hfull : meMaxPendingRequests ≤ s.fifoSequencer.pendingClientRequests.length) :
    s.handleRequest socket rxTime r = .error (.fatal "To many pending requests") := by
  rw [OrderServer.handleRequest_of_bound hc hs, if_pos hseq, FIFOSequencer.addClientRequest,
    if_pos hfull]
  rfl

/-- A request with any other number is passed over. -/
theorem handleRequest_other (hc : r.meClientRequest.clientId.toNat < meMaxNumClients)
    (hs : OwnSocket s r.meClientRequest.clientId socket)
    (hseq : r.seqNum ≠ s.clientIdOutgoingSeqNum r.meClientRequest.clientId) :
    ∃ s', s.handleRequest socket rxTime r = .ok s' ∧ handedOver s s' = 0 ∧
      s'.clientIdOutgoingSeqNum = s.clientIdOutgoingSeqNum := by
  rw [OrderServer.handleRequest_of_bound hc hs, if_neg hseq]
  refine ⟨_, rfl, ?_, ?_⟩
  · rw [handedOver, OrderServer.bindSocket]
    split <;> simp
  · rw [OrderServer.bindSocket]
    split <;> rfl

/-- The table counts what is handed over. -/
theorem handleRequest_counts {s' : OrderServer}
    (hc : r.meClientRequest.clientId.toNat < meMaxNumClients)
    (hs : OwnSocket s r.meClientRequest.clientId socket)
    (h : s.handleRequest socket rxTime r = .ok s') :
    s'.clientIdOutgoingSeqNum = Function.update s.clientIdOutgoingSeqNum r.meClientRequest.clientId
      (s.clientIdOutgoingSeqNum r.meClientRequest.clientId + .ofNat (handedOver s s')) := by
  by_cases hdue : r.seqNum = s.clientIdOutgoingSeqNum r.meClientRequest.clientId
  · by_cases hroom : s.fifoSequencer.pendingClientRequests.length < meMaxPendingRequests
    · obtain ⟨s'', hok, hone, hcount⟩ := handleRequest_due rxTime hc hs hdue hroom
      obtain rfl := Except.ok.inj (h.symm.trans hok)
      rw [hone]
      exact hcount
    · rw [handleRequest_full rxTime hc hs hdue (Nat.not_lt.1 hroom)] at h
      exact absurd h (by simp)
  · obtain ⟨s'', hok, hzero, hcount⟩ := handleRequest_other rxTime hc hs hdue
    obtain rfl := Except.ok.inj (h.symm.trans hok)
    rw [hzero, hcount]
    simp

/-- **Acceptance follows the number `n`** exactly when the table holds `n` or the request has
neither of the two, and the request that is accepted fits. -/
theorem accepts_exactly_iff (hc : r.meClientRequest.clientId.toNat < meMaxNumClients)
    (hs : OwnSocket s r.meClientRequest.clientId socket) {n : UInt64} :
    (∃ s', s.handleRequest socket rxTime r = .ok s' ∧ (handedOver s s' = 1 ↔ r.seqNum = n)) ↔
      (r.seqNum = s.clientIdOutgoingSeqNum r.meClientRequest.clientId →
        s.fifoSequencer.pendingClientRequests.length < meMaxPendingRequests) ∧
      (s.clientIdOutgoingSeqNum r.meClientRequest.clientId = n ∨ r.seqNum ≠ n ∧
        r.seqNum ≠ s.clientIdOutgoingSeqNum r.meClientRequest.clientId) := by
  by_cases hdue : r.seqNum = s.clientIdOutgoingSeqNum r.meClientRequest.clientId
  · by_cases hroom : s.fifoSequencer.pendingClientRequests.length < meMaxPendingRequests
    · obtain ⟨s', hok, hone, -⟩ := handleRequest_due rxTime hc hs hdue hroom
      constructor
      · rintro ⟨s'', hok', hiff⟩
        obtain rfl := Except.ok.inj (hok.symm.trans hok')
        exact ⟨fun _ => hroom, Or.inl (hdue.symm.trans (hiff.1 hone))⟩
      · rintro ⟨-, hor⟩
        refine ⟨s', hok, fun _ => ?_, fun _ => hone⟩
        exact hor.elim hdue.trans fun h => absurd hdue h.2
    · have hfatal := handleRequest_full rxTime hc hs hdue (Nat.not_lt.1 hroom)
      constructor
      · rintro ⟨s', hok, -⟩
        exact absurd (hfatal.symm.trans hok) (by simp)
      · exact fun h => absurd (h.1 hdue) hroom
  · obtain ⟨s', hok, hzero, -⟩ := handleRequest_other rxTime hc hs hdue
    constructor
    · rintro ⟨s'', hok', hiff⟩
      obtain rfl := Except.ok.inj (hok.symm.trans hok')
      refine ⟨fun h => absurd h hdue, Or.inr ⟨fun hn => ?_, hdue⟩⟩
      exact absurd (hzero.symm.trans (hiff.2 hn)) (by decide)
    · rintro ⟨-, hor⟩
      refine ⟨s', hok, fun hone => absurd (hzero.symm.trans hone) (by decide), fun hn => ?_⟩
      exact hor.elim (fun h => absurd (hn.trans h.symm) hdue) fun h => absurd hn h.1

end Request

/-! ## One step -/

section Step

variable {x : System} {sort : List RecvTimeClientRequest → List RecvTimeClientRequest}

/-- The shared counter is the count of one direction when the other has not been used. -/
theorem ofNat_add_succ_eq_iff {a b : Nat} :
    UInt64.ofNat (a + b + 1) = .ofNat (a + 1) ↔ UInt64.ofNat b = 0 := by
  rw [ofNat_eq_iff, ofNat_eq_zero_iff]
  omega

theorem InStep.request_iff (h : InStep x) {socket : Socket} {rxTime : Nanos} {r : OMClientRequest}
    (hc : r.meClientRequest.clientId.toNat < meMaxNumClients) :
    StepOk x (.request socket rxTime r) ↔ StepMeets x (.request socket rxTime r) := by
  by_cases hs : OwnSocket x.server r.meClientRequest.clientId socket
  · have hiff := accepts_exactly_iff rxTime hc hs
      (n := .ofNat (x.accepted r.meClientRequest.clientId + 1))
    rw [(h _).counter, ofNat_add_succ_eq_iff] at hiff
    constructor
    · rintro ⟨s, hok, hall⟩ -
      exact hiff.1 ⟨s, hok, (hall hs).1⟩
    · intro hm
      obtain ⟨s, hok, hexact⟩ := hiff.2 (hm hs)
      refine ⟨s, hok, fun _ => ⟨hexact, fun hof hnext => hexact.2 ?_⟩⟩
      exact (sendsNext_iff.1 hnext).trans ((h _).nextOutgoing hof)
  · obtain ⟨hn, hforeign⟩ := not_or.1 hs
    constructor
    · exact fun _ how => absurd how hs
    · exact fun _ => ⟨x.server, OrderServer.handleRequest_of_foreign hc hn hforeign,
        fun how => absurd how hs⟩

theorem InStep.response_iff (h : InStep x) {r : MEClientResponse} (hv : Valid x (.response r)) :
    StepOk x (.response r) ↔ StepMeets x (.response r) := by
  obtain ⟨hc, hbound⟩ := hv
  obtain ⟨socket, hs⟩ := Option.ne_none_iff_exists'.1 hbound
  have hsend := OrderServer.sendResponse_of_bound hc hs
  have hnumber : x.server.clientIdOutgoingSeqNum r.clientId = .ofNat (x.responded r.clientId + 1) ↔
      UInt64.ofNat (x.accepted r.clientId) = 0 := by
    rw [(h _).counter, Nat.add_comm (x.accepted r.clientId), ofNat_add_succ_eq_iff]
  constructor
  · rintro ⟨s, socket', hok, -⟩
    obtain ⟨-, hsends⟩ := Prod.mk.inj (Except.ok.inj (hsend.symm.trans hok))
    have hbytes := (Prod.mk.inj (List.cons.inj hsends).1).2
    exact hnumber.1 (Codec.u64.encode_injective hbytes)
  · intro hm
    rw [hnumber.2 hm] at hsend
    refine ⟨_, socket, hsend, ?_⟩
    have hgate : (x.gateway r.clientId).handleResponse ⟨.ofNat (x.responded r.clientId + 1), r⟩ =
        _ := OrderGateway.handleResponse_of_due (h _).clientId.symm (h _).nextExp.symm
    rw [hgate]

/-- **The condition is exact** for one step. -/
theorem InStep.stepOk_iff (h : InStep x) {e : Event} (hv : Valid x e) :
    StepOk x e ↔ StepMeets x e := by
  cases e with
  | request socket rxTime r => exact h.request_iff hv
  | finished => exact Iff.rfl
  | response r => exact h.response_iff hv

/-- A request keeps the session in step. -/
theorem InStep.request (h : InStep x) {socket : Socket} {rxTime : Nanos} {r : OMClientRequest}
    {x' : System} (hc : r.meClientRequest.clientId.toNat < meMaxNumClients)
    (hok : StepOk x (.request socket rxTime r))
    (hn : Next sort x (.request socket rxTime r) x') : InStep x' := by
  rw [Next, System.step, bind_eq_ok] at hn
  obtain ⟨s, hs, hn⟩ := hn
  by_cases how : OwnSocket x.server r.meClientRequest.clientId socket
  · rw [if_pos how] at hn
    obtain rfl := Except.ok.inj hn
    have hcounts := handleRequest_counts rxTime hc how hs
    obtain ⟨s', hs', hexact⟩ := hok
    obtain rfl := Except.ok.inj (hs.symm.trans hs')
    obtain ⟨-, hgate⟩ := hexact how
    have hat := h r.meClientRequest.clientId
    refine h.update (g := ((x.gateway _).sendRequest r.meClientRequest).1)
      ⟨?_, hat.clientId, hat.nextExp, fun hof => ?_⟩ hcounts rfl rfl
      (Function.update_eq_self _ _).symm rfl
    · rw [hat.counter, ← UInt64.ofNat_add, ofNat_eq_iff]
      congr 1
      omega
    · rw [Bool.and_eq_true] at hof
      rw [hgate hof.1 hof.2, OrderGateway.sendRequest]
      dsimp only
      rw [hat.nextOutgoing hof.1]
      exact (UInt64.ofNat_add _ 1).symm
  · rw [if_neg how] at hn
    obtain rfl := Except.ok.inj hn
    obtain ⟨hn, hforeign⟩ := not_or.1 how
    obtain rfl := Except.ok.inj
      (hs.symm.trans (OrderServer.handleRequest_of_foreign hc hn hforeign))
    exact h

/-- A response keeps the session in step. -/
theorem InStep.response (h : InStep x) {r : MEClientResponse} {x' : System}
    (hv : Valid x (.response r)) (hm : StepMeets x (.response r))
    (hn : Next sort x (.response r) x') : InStep x' := by
  obtain ⟨hc, hbound⟩ := hv
  obtain ⟨socket, hs⟩ := Option.ne_none_iff_exists'.1 hbound
  have hat := h r.clientId
  have hnumber : x.server.clientIdOutgoingSeqNum r.clientId =
      .ofNat (x.responded r.clientId + 1) := by
    rw [hat.counter, Nat.add_comm (x.accepted r.clientId), ofNat_add_succ_eq_iff]
    exact hm
  have hgate : (x.gateway r.clientId).handleResponse
      ⟨x.server.clientIdOutgoingSeqNum r.clientId, r⟩ = _ :=
    OrderGateway.handleResponse_of_due hat.clientId.symm (hnumber.trans hat.nextExp.symm)
  rw [Next, System.step, OrderServer.sendResponse_of_bound hc hs, ok_bind] at hn
  dsimp only at hn
  rw [hgate] at hn
  obtain rfl := Except.ok.inj hn
  refine h.update (g := { x.gateway r.clientId with
      nextExpResponseSeqNum := (x.gateway r.clientId).nextExpResponseSeqNum + 1 })
    ⟨?_, hat.clientId, ?_, hat.nextOutgoing⟩ rfl rfl
    (Function.update_eq_self _ _).symm rfl (Function.update_eq_self _ _).symm
  · rw [hat.counter]
    exact (UInt64.ofNat_add _ 1).symm
  · dsimp only
    rw [hat.nextExp]
    exact (UInt64.ofNat_add _ 1).symm

theorem InStep.next (h : InStep x) {e : Event} {x' : System} (hv : Valid x e)
    (hm : StepMeets x e) (hn : Next sort x e x') : InStep x' := by
  cases e with
  | request socket rxTime r => exact h.request hv ((h.request_iff hv).2 hm) hn
  | finished =>
    obtain rfl := Except.ok.inj hn
    exact h
  | response r => exact h.response hv hm hn

end Step

/-! ## Whole runs -/

/-- **The directions are independent** in a run exactly when every step of it meets the
condition. -/
theorem independent_iff (es : List Event) (hv : Along (Next sort) Valid .init es) :
    Along (Next sort) StepOk .init es ↔ Along (Next sort) StepMeets .init es :=
  along_congr InStep Valid (fun _ _ h hv => h.stepOk_iff hv)
    (fun _ _ _ h hv hm hn => h.next hv hm hn) inStep_init hv

/-- The first order of client 1, numbered by its gateway. -/
def firstRequest : OMClientRequest where
  seqNum := 1
  meClientRequest :=
    { requestType := .new, clientId := 1, tickerId := 0, orderId := 1, side := .buy, price := 100,
      qty := 5 }

/-- The session after the first request on socket 7. -/
def afterFirst : System :=
  ((System.init.step id (.request 7 0 firstRequest)).toOption).getD .init

theorem step_firstRequest : System.init.step id (.request 7 0 firstRequest) = .ok afterFirst := rfl

theorem next_firstRequest {x : System} (h : Next id .init (.request 7 0 firstRequest) x) :
    x = afterFirst :=
  (Except.ok.inj (step_firstRequest.symm.trans h)).symm

/-- The next request is accepted as long as nothing was sent back. -/
theorem independent_two_requests : Along (Next id) StepOk .init
    [.request 7 0 firstRequest, .request 7 1 { firstRequest with seqNum := 2 }] := by
  have hc : firstRequest.meClientRequest.clientId.toNat < meMaxNumClients := by decide
  refine (independent_iff id [.request 7 0 firstRequest,
    .request 7 1 { firstRequest with seqNum := 2 }] ⟨hc, fun x hx => ⟨hc, fun _ _ => trivial⟩⟩).2
    ⟨fun _ => ⟨fun _ => by decide, Or.inl rfl⟩, fun x hx => ?_⟩
  obtain rfl := next_firstRequest hx
  exact ⟨fun _ => ⟨fun _ => by decide, Or.inl rfl⟩, fun _ _ => trivial⟩

/-- The first response to a client that has sent a request carries the number 2. -/
theorem not_independent_response :
    ¬ ∀ es : List Event, Along (Next id) Valid .init es → Along (Next id) StepOk .init es := by
  intro h
  have hc : firstRequest.meClientRequest.clientId.toNat < meMaxNumClients := by decide
  have hbound : Valid afterFirst (.response OrderServer.firstAccepted) := ⟨by decide, by decide⟩
  obtain ⟨-, hnext⟩ := h [.request 7 0 firstRequest, .response OrderServer.firstAccepted]
    ⟨hc, fun x hx => ⟨next_firstRequest hx ▸ hbound, fun _ _ => trivial⟩⟩
  obtain ⟨⟨s, socket, hok, -⟩, -⟩ := hnext afterFirst step_firstRequest
  have hnumbers : (afterFirst.server.sendResponse OrderServer.firstAccepted).map
      (fun x => x.2.map Prod.snd) = .ok [Codec.u64.encode 2,
        (meClientResponseCodec.encode OrderServer.firstAccepted).take 8] := by rfl
  rw [hok] at hnumbers
  have hfirst : Codec.u64.encode 1 = Codec.u64.encode 2 :=
    (List.cons.inj (Except.ok.inj hnumbers)).1
  exact absurd hfirst (by decide)

end Session
end TradingEcosystem
