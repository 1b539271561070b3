import TradingEcosystem.Exchange.BookRun
import Mathlib.Algebra.GroupWithZero.Nat

/-!
# The life of an order

What a client can read off the responses of a book: an order begins with one acceptance, is filled
and cancelled under the ids it was accepted with, ends at most once, and is not heard of again.
`OneLife` says this of a list of responses, one response at a time: each of them `Follows` those
before it.

The market order id is the counter before the request, so two acceptances differ as long as it does
not wrap, and the invariant `Lives` ties every resting order to its acceptance.
-/

set_option autoImplicit false

namespace TradingEcosystem
namespace Exchange

/-! ## Logs of responses -/

/-- The response after which nothing is left of its order. -/
def EndsOrder (r : MEClientResponse) : Prop :=
  r.type = .canceled ∨ r.type = .filled ∧ r.leftQty = 0

/-- `a` is the acceptance of the order that `r` is about. -/
def AcceptanceOf (a r : MEClientResponse) : Prop :=
  a.type = .accepted ∧ a.markerOrderId = r.markerOrderId ∧ a.clientId = r.clientId ∧
    a.clientOrderId = r.clientOrderId

/-- What the fills in the log have executed of an order. -/
def executed (log : List MEClientResponse) (marketOrderId : OrderId) : Nat :=
  ((log.filter fun r => r.type = .filled ∧ r.markerOrderId = marketOrderId).map
    fun r => r.execQty.toNat).sum

/-- A response that may come after the ones in the log. -/
structure Follows (log : List MEClientResponse) (r : MEClientResponse) : Prop where
  /-- No id is accepted twice. -/
  fresh : r.type = .accepted →
    ∀ a ∈ log, a.type = .accepted → a.markerOrderId ≠ r.markerOrderId
  /-- What is cancelled or filled was accepted, with the same client and client order id. -/
  named : r.type = .canceled ∨ r.type = .filled → ∃ a ∈ log, AcceptanceOf a r
  /-- The order has not ended. -/
  alive : ∀ s ∈ log, EndsOrder s → s.markerOrderId ≠ r.markerOrderId
  /-- A fill counts down from the quantity that was accepted. -/
  filled : r.type = .filled →
    ∀ a ∈ log, a.type = .accepted → a.markerOrderId = r.markerOrderId →
      r.leftQty.toNat + executed (log ++ [r]) r.markerOrderId = a.leftQty.toNat

/-- **One life per order**: every response may come after the ones before it. -/
def OneLife (log : List MEClientResponse) : Prop :=
  ∀ before r, before ++ [r] <+: log → Follows before r

theorem oneLife_nil : OneLife [] := fun before r h => absurd h.length_le (by simp)

theorem OneLife.concat {log : List MEClientResponse} {r : MEClientResponse} (h : OneLife log)
    (hr : Follows log r) : OneLife (log ++ [r]) := by
  intro before s hs
  rcases List.prefix_concat_iff.1 hs with heq | hs
  · obtain ⟨rfl, hrs⟩ := List.append_inj' heq rfl
    obtain rfl := List.singleton_inj.1 hrs
    exact hr
  · exact h before s hs

/-! ## Orders and their acceptances -/

namespace MEOrderBook

/-- `k` ids were handed out, and every resting order is one that was accepted and has not ended. -/
structure Lives (b : MEOrderBook) (ring : Nat → List Ptr) (k : Nat)
    (log : List MEClientResponse) : Prop where
  slots : Slots b ring
  counter : b.nextMarketOrderId = .ofNat (k + 1)
  acceptedLe : ∀ a ∈ log, a.type = .accepted → a.markerOrderId.toNat ≤ k
  endedLe : ∀ s ∈ log, EndsOrder s → s.markerOrderId.toNat ≤ k
  accepted : ∀ i, ∀ p ∈ ring i, ∃ a ∈ log, a.type = .accepted ∧
    a.markerOrderId = (b.data p).marketOrderId ∧ a.clientId = (b.data p).clientId ∧
    a.clientOrderId = (b.data p).clientOrderId
  alive : ∀ i, ∀ p ∈ ring i, ∀ s ∈ log, EndsOrder s → s.markerOrderId ≠ (b.data p).marketOrderId
  idsInj : ∀ i, ∀ p ∈ ring i, ∀ j, ∀ q ∈ ring j,
    (b.data p).marketOrderId = (b.data q).marketOrderId → p = q
  oneLife : OneLife log

theorem lives_init (t : TickerId) : Lives (init t) (fun _ => []) 0 [] where
  slots := slots_init t
  counter := rfl
  acceptedLe := by simp
  endedLe := by simp
  accepted := by simp
  alive := by simp
  idsInj := by simp
  oneLife := oneLife_nil

variable {b b' : MEOrderBook} {ring : Nat → List Ptr} {k : Nat} {log : List MEClientResponse}
  {req : MEClientRequest} {sent : List Sent}

theorem Lives.toNat_next (h : Lives b ring k log) (hk : k + 1 < UInt64.size) :
    b.nextMarketOrderId.toNat = k + 1 := by
  rw [h.counter, UInt64.toNat_ofNat_of_lt' hk]

/-- The id of a resting order was handed out. -/
theorem Lives.idLe (h : Lives b ring k log) {i : Nat} {p : Ptr} (hp : p ∈ ring i) :
    (b.data p).marketOrderId.toNat ≤ k := by
  obtain ⟨a, ha, htype, hid, -⟩ := h.accepted i p hp
  exact hid ▸ h.acceptedLe a ha htype

/-- What was said about ids that were handed out is not said about the next one. -/
theorem Lives.ne_next (h : Lives b ring k log) (hk : k + 1 < UInt64.size) {id : OrderId}
    (hid : id.toNat ≤ k) : id ≠ b.nextMarketOrderId := by
  rintro rfl
  rw [h.toNat_next hk] at hid
  omega

theorem not_endsOrder_accepted (k : OrderId) (req : MEClientRequest) :
    ¬ EndsOrder (acceptedResponse k req) := by
  rintro (h | h)
  · exact absurd h (by simp [acceptedResponse])
  · exact absurd h.1 (by simp [acceptedResponse])

/-- The acceptance of the next id begins a life. -/
theorem Lives.follows_accepted (h : Lives b ring k log) (hk : k + 1 < UInt64.size)
    (req : MEClientRequest) : Follows log (acceptedResponse b.nextMarketOrderId req) where
  fresh := fun _ a ha htype => h.ne_next hk (h.acceptedLe a ha htype)
  named := fun htype => absurd htype (by simp [acceptedResponse])
  alive := fun s hs hend => h.ne_next hk (h.endedLe s hs hend)
  filled := fun htype => absurd htype (by simp [acceptedResponse])

/-- A `NEW` that leaves nothing in the book. -/
theorem Lives.empty (h : Lives b ring k log) (hk : k + 1 < UInt64.size) (req : MEClientRequest) :
    Lives b.generateNewMarketOrderId ring (k + 1)
      (log ++ [acceptedResponse b.nextMarketOrderId req]) where
  slots := h.slots.generateNewMarketOrderId
  counter := (congrArg (· + 1) h.counter).trans (UInt64.ofNat_add (k + 1) 1).symm
  acceptedLe := by
    intro a ha htype
    rcases List.mem_append.1 ha with ha | ha
    · exact Nat.le_succ_of_le (h.acceptedLe a ha htype)
    · obtain rfl := List.mem_singleton.1 ha
      exact (h.toNat_next hk).le
  endedLe := by
    intro s hs hend
    rcases List.mem_append.1 hs with hs | hs
    · exact Nat.le_succ_of_le (h.endedLe s hs hend)
    · obtain rfl := List.mem_singleton.1 hs
      exact absurd hend (not_endsOrder_accepted _ _)
  accepted := by
    intro i p hp
    obtain ⟨a, ha, hrest⟩ := h.accepted i p hp
    exact ⟨a, List.mem_append_left _ ha, hrest⟩
  alive := by
    intro i p hp s hs hend
    rcases List.mem_append.1 hs with hs | hs
    · exact h.alive i p hp s hs hend
    · obtain rfl := List.mem_singleton.1 hs
      exact absurd hend (not_endsOrder_accepted _ _)
  idsInj := h.idsInj
  oneLife := h.oneLife.concat (h.follows_accepted hk req)

/-- A `NEW` that rests: to what holds without the order is added what holds of it. -/
theorem Lives.rested (h : Lives b ring k log) (hk : k + 1 < UInt64.size)
    (hi : Inserted b.generateNewMarketOrderId b' (b.newOrder ring req)) {j : Nat}
    (hs : Slots b' (Function.update ring j (ring j ++ [b.nextOrderPtr]))) :
    Lives b' (Function.update ring j (ring j ++ [b.nextOrderPtr])) (k + 1)
      (log ++ [acceptedResponse b.nextMarketOrderId req]) := by
  have he := h.empty hk req
  have hself : b'.data b.nextOrderPtr = b.newOrder ring req := hi.self
  have hold : ∀ i, ∀ p ∈ ring i, b'.data p = b.data p := fun i p hp =>
    hi.other p (h.slots.ne_fresh hp)
  have hne : ∀ i, ∀ p ∈ ring i, (b.data p).marketOrderId ≠ b.nextMarketOrderId := fun i p hp =>
    h.ne_next hk (h.idLe hp)
  refine ⟨hs, hi.marketOrderId.trans he.counter, he.acceptedLe, he.endedLe, ?_, ?_, ?_,
    he.oneLife⟩
  · intro i p hp
    rcases (mem_inserted j i).1 hp with ⟨-, rfl⟩ | hp
    · rw [hself]
      exact ⟨_, List.mem_append_right _ (List.mem_singleton.2 rfl), rfl, rfl, rfl, rfl⟩
    · rw [hold i p hp]
      exact he.accepted i p hp
  · intro i p hp s hsl hend
    rcases (mem_inserted j i).1 hp with ⟨-, rfl⟩ | hp
    · rw [hself]
      rcases List.mem_append.1 hsl with hsl | hsl
      · exact h.ne_next hk (h.endedLe s hsl hend)
      · obtain rfl := List.mem_singleton.1 hsl
        exact absurd hend (not_endsOrder_accepted _ _)
    · rw [hold i p hp]
      exact he.alive i p hp s hsl hend
  · intro i p hp l q hq heq
    rcases (mem_inserted j i).1 hp with ⟨-, rfl⟩ | hp <;>
      rcases (mem_inserted j l).1 hq with ⟨-, rfl⟩ | hq
    · rfl
    · rw [hself, hold l q hq] at heq
      exact absurd heq.symm (hne l q hq)
    · rw [hself, hold i p hp] at heq
      exact absurd heq (hne i p hp)
    · rw [hold i p hp, hold l q hq] at heq
      exact h.idsInj i p hp l q hq heq

/-- A `CANCEL` that finds nothing names no order. -/
theorem Lives.missed (h : Lives b ring k log) (hk : k + 1 < UInt64.size) (req : MEClientRequest) :
    Lives b ring k (log ++ [cancelRejectedResponse req]) := by
  have hend : ¬ EndsOrder (cancelRejectedResponse req) := by
    rintro (h | h)
    · exact absurd h (by simp [cancelRejectedResponse])
    · exact absurd h.1 (by simp [cancelRejectedResponse])
  have hfollows : Follows log (cancelRejectedResponse req) :=
    { fresh := fun htype => absurd htype (by simp [cancelRejectedResponse])
      named := fun htype => absurd htype (by simp [cancelRejectedResponse])
      filled := fun htype => absurd htype (by simp [cancelRejectedResponse])
      alive := fun s hs hterm hid => by
        -- the id it carries is the invalid one, which is the last one to be handed out
        have hle := h.endedLe s hs hterm
        have hinvalid : s.markerOrderId.toNat = UInt64.size - 1 := by rw [hid]; rfl
        omega }
  refine { h with acceptedLe := ?_, endedLe := ?_, accepted := ?_, alive := ?_,
                  oneLife := h.oneLife.concat hfollows }
  · intro a ha htype
    rcases List.mem_append.1 ha with ha | ha
    · exact h.acceptedLe a ha htype
    · obtain rfl := List.mem_singleton.1 ha
      exact absurd htype (by simp [cancelRejectedResponse])
  · intro s hs hterm
    rcases List.mem_append.1 hs with hs | hs
    · exact h.endedLe s hs hterm
    · exact absurd (List.mem_singleton.1 hs ▸ hterm) hend
  · intro i p hp
    obtain ⟨a, ha, hrest⟩ := h.accepted i p hp
    exact ⟨a, List.mem_append_left _ ha, hrest⟩
  · intro i p hp s hs hterm
    rcases List.mem_append.1 hs with hs | hs
    · exact h.alive i p hp s hs hterm
    · exact absurd (List.mem_singleton.1 hs ▸ hterm) hend

/-- A `CANCEL` that takes its order out ends that order's life and no other. -/
theorem Lives.removed (h : Lives b ring k log) {i : Nat} {p : Ptr} (hi : p ∈ ring i)
    (hids : (b.data p).clientId = req.clientId ∧ (b.data p).clientOrderId = req.orderId)
    (hr : Removed b b' p) (hs : Slots b' (Function.update ring i ((ring i).erase p))) :
    Lives b' (Function.update ring i ((ring i).erase p)) k
      (log ++ [canceledResponse req (b.data p)]) := by
  have hmem := h.slots.mem_removed hi
  obtain ⟨a, ha, htype, hid, hc, ho⟩ := h.accepted i p hi
  have hfollows : Follows log (canceledResponse req (b.data p)) :=
    { fresh := fun htype => absurd htype (by simp [canceledResponse])
      named := fun _ => ⟨a, ha, htype, hid, hc.trans hids.1, ho.trans hids.2⟩
      alive := fun s hsl hend => h.alive i p hi s hsl hend
      filled := fun htype => absurd htype (by simp [canceledResponse]) }
  refine ⟨hs, hr.marketOrderId.trans h.counter, ?_, ?_, ?_, ?_, ?_, h.oneLife.concat hfollows⟩
  · intro a ha htype
    rcases List.mem_append.1 ha with ha | ha
    · exact h.acceptedLe a ha htype
    · obtain rfl := List.mem_singleton.1 ha
      exact absurd htype (by simp [canceledResponse])
  · intro s hsl hend
    rcases List.mem_append.1 hsl with hsl | hsl
    · exact h.endedLe s hsl hend
    · obtain rfl := List.mem_singleton.1 hsl
      exact h.idLe hi
  · intro j q hq
    rw [hr.data]
    obtain ⟨a, ha, hrest⟩ := h.accepted j q ((hmem j q).1 hq).1
    exact ⟨a, List.mem_append_left _ ha, hrest⟩
  · intro j q hq s hsl hend
    obtain ⟨hq, hqp⟩ := (hmem j q).1 hq
    rw [hr.data]
    rcases List.mem_append.1 hsl with hsl | hsl
    · exact h.alive j q hq s hsl hend
    · obtain rfl := List.mem_singleton.1 hsl
      exact fun heq => hqp (h.idsInj j q hq i p hi heq.symm)
  · intro j q hq l r hrl heq
    rw [hr.data, hr.data] at heq
    exact h.idsInj j q ((hmem j q).1 hq).1 l r ((hmem l r).1 hrl).1 heq

/-- **One request.** -/
theorem Lives.step (h : Lives b ring k log) (hk : k + 1 < UInt64.size)
    (hb : b.process req = .ok (b', sent)) :
    ∃ ring' k', k' ≤ k + 1 ∧ Lives b' ring' k' (log ++ clientResponses sent) := by
  cases processed_of_eq_ok h.slots hb with
  | empty => exact ⟨ring, k + 1, Nat.le_refl _, h.empty hk req⟩
  | rested _ _ hi hs => exact ⟨_, k + 1, Nat.le_refl _, h.rested hk hi hs⟩
  | dropped => exact ⟨ring, k, Nat.le_succ k, (List.append_nil log).symm ▸ h⟩
  | missed => exact ⟨ring, k, Nat.le_succ k, h.missed hk req⟩
  | removed _ hp hi hr hs =>
    exact ⟨_, k, Nat.le_succ k, h.removed hi (h.slots.table _ _ _ hp).2 hr hs⟩

/-- **One life per order.**  Whatever fewer than 2^64 requests make a book say, every response fits
the ones before it: ids are accepted once, ended at most once, and not heard of afterwards. -/
theorem oneLife_of_processAll (t : TickerId) (reqs : List MEClientRequest)
    (hlen : reqs.length < UInt64.size) {b : MEOrderBook} {sent : List Sent}
    (hrun : (init t).processAll reqs = .ok (b, sent)) : OneLife (clientResponses sent) := by
  have hstep : ∀ n (x : MEOrderBook × List Sent) req y, n + 1 < UInt64.size →
      (∃ ring k, k ≤ n ∧ Lives x.1 ring k (clientResponses x.2)) → processAfter x req = .ok y →
        ∃ ring k, k ≤ n + 1 ∧ Lives y.1 ring k (clientResponses y.2) := by
    rintro n x req y hn ⟨ring, k, hk, h⟩ hy
    obtain ⟨more, hmore, hlog⟩ := processAfter_eq_ok.1 hy
    obtain ⟨ring', k', hk', h'⟩ := h.step (by omega) hmore
    refine ⟨ring', k', by omega, ?_⟩
    rwa [hlog, clientResponses_append]
  obtain ⟨ring, k, -, h⟩ := Run.inv_of_foldlM_lt _ hstep
    ⟨_, 0, Nat.le_refl 0, lives_init t⟩ (by omega) hrun
  exact h.oneLife

/-- A buy order of client 1. -/
def firstBuy : MEClientRequest where
  requestType := .new
  clientId := 1
  tickerId := 0
  orderId := 5
  price := 100
  qty := 10
  side := .buy

/-- An order that is cancelled, and another one with its client order id. -/
def reusedId : List MEClientRequest :=
  [firstBuy, { firstBuy with requestType := .cancel }, { firstBuy with side := .sell }]

theorem oneLife_reusedId : ∃ b sent, (init 0).processAll reusedId = .ok (b, sent) ∧
    (clientResponses sent).map (·.markerOrderId) = [1, 1, 2] ∧ OneLife (clientResponses sent) := by
  have hrun : ∃ b sent, (init 0).processAll reusedId = .ok (b, sent) ∧
    (clientResponses sent).map (·.markerOrderId) = [1, 1, 2] := ⟨_, _, rfl, rfl⟩
  obtain ⟨b, sent, hrun, hids⟩ := hrun
  exact ⟨b, sent, hrun, hids, oneLife_of_processAll 0 reusedId (by decide) hrun⟩

end MEOrderBook
end Exchange
end TradingEcosystem
