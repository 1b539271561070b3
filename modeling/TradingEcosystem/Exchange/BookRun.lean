import TradingEcosystem.Exchange.MatchingEngine
import TradingEcosystem.Lib.Along

/-!
# Runs of one book

A book takes requests one after the other, and what it sends is collected in the order of the
calls.  `Processed.slots` says that a request which returns leaves a book of rings, so that what is
shown of one request by the cases of `Processed` holds over a whole run.
-/

set_option autoImplicit false

namespace TradingEcosystem
namespace Exchange
namespace MEOrderBook

open Run

/-- A request takes the book on. -/
def Next (b : MEOrderBook) (req : MEClientRequest) (b' : MEOrderBook) : Prop :=
  ∃ sent, b.process req = .ok (b', sent)

/-- The request is processed: its type is `NEW` or `CANCEL`, its ids are inside the tables, and the
pools have the blocks it takes. -/
def Returns (b : MEOrderBook) (req : MEClientRequest) : Prop := ∃ x, b.process req = .ok x

/-- One request, with what was sent so far. -/
def processAfter (x : MEOrderBook × List Sent) (req : MEClientRequest) :
    Except Fault (MEOrderBook × List Sent) := do
  let (b, sent) ← x.1.process req
  return (b, x.2 ++ sent)

/-- All requests, and what they make the book send. -/
def processAll (b : MEOrderBook) (reqs : List MEClientRequest) :
    Except Fault (MEOrderBook × List Sent) :=
  reqs.foldlM processAfter (b, [])

theorem processAfter_eq_ok {x y : MEOrderBook × List Sent} {req : MEClientRequest} :
    processAfter x req = .ok y ↔
      ∃ sent, x.1.process req = .ok (y.1, sent) ∧ y.2 = x.2 ++ sent := by
  rw [processAfter, bind_eq_ok]
  constructor
  · rintro ⟨⟨b, sent⟩, hb, hy⟩
    obtain rfl := Except.ok.inj hy
    exact ⟨sent, hb, rfl⟩
  · rintro ⟨sent, hb, hy⟩
    exact ⟨(y.1, sent), hb, congrArg Except.ok (Prod.ext rfl hy.symm)⟩

theorem Next.unique {b b' b'' : MEOrderBook} {req : MEClientRequest} (h : Next b req b')
    (h' : Next b req b'') : b' = b'' := by
  obtain ⟨sent, h⟩ := h
  obtain ⟨sent', h'⟩ := h'
  exact (Prod.mk.inj (Except.ok.inj (h.symm.trans h'))).1

/-- In a run that returns every request does. -/
theorem along_returns {b : MEOrderBook} {sent : List Sent} (reqs : List MEClientRequest)
    {y : MEOrderBook × List Sent} (h : reqs.foldlM processAfter (b, sent) = .ok y) :
    Along Next Returns b reqs := by
  induction reqs generalizing b sent with
  | nil => trivial
  | cons req reqs ih =>
    rw [List.foldlM_cons] at h
    obtain ⟨⟨c, all⟩, hc, h⟩ := bind_eq_ok.1 h
    obtain ⟨more, hmore, -⟩ := processAfter_eq_ok.1 hc
    refine ⟨⟨_, hmore⟩, fun b' hb' => ?_⟩
    obtain rfl := hb'.unique ⟨more, hmore⟩
    exact ih h

variable {b b' : MEOrderBook} {ring : Nat → List Ptr} {req : MEClientRequest} {sent : List Sent}

/-- **A book of rings stays one.** -/
theorem Processed.slots (hb : Slots b ring) (h : Processed b ring req b' sent) :
    ∃ ring', Slots b' ring' := by
  cases h with
  | empty => exact ⟨ring, hb.generateNewMarketOrderId⟩
  | rested _ _ _ hs => exact ⟨_, hs⟩
  | dropped => exact ⟨ring, hb⟩
  | missed => exact ⟨ring, hb⟩
  | removed _ _ _ _ hs => exact ⟨_, hs⟩

/-- What holds after a request holds of the book it leaves. -/
theorem forall_next_iff {P : MEOrderBook → Prop} (h : b.process req = .ok (b', sent)) :
    (∀ c, Next b req c → P c) ↔ P b' :=
  ⟨fun hP => hP b' ⟨sent, h⟩, fun hP _ hc => hc.unique ⟨sent, h⟩ ▸ hP⟩

/-- **From one request to a run.**  If a property survives a request to a book of rings exactly
under a condition, it survives a run exactly when every request meets the condition. -/
theorem along_keeps_iff {P : MEOrderBook → Prop} {cond : MEOrderBook → MEClientRequest → Prop}
    (hone : ∀ b req, (∃ ring, Slots b ring) ∧ P b → Returns b req →
      ((∀ b', Next b req b' → P b') ↔ cond b req))
    (hb : (∃ ring, Slots b ring) ∧ P b) {reqs : List MEClientRequest}
    (hret : Along Next Returns b reqs) :
    Along Next (fun b req => ∀ b', Next b req b' → P b') b reqs ↔ Along Next cond b reqs := by
  refine along_congr (fun b => (∃ ring, Slots b ring) ∧ P b) Returns hone ?_ hb hret
  intro b req b' hb hret hcond hn
  refine ⟨?_, (hone b req hb hret).2 hcond b' hn⟩
  obtain ⟨⟨ring, h⟩, -⟩ := hb
  obtain ⟨sent, hsent⟩ := hn
  exact (processed_of_eq_ok h hsent).slots h

/-- Nothing rests in a new book. -/
theorem not_rests_init (t : TickerId) (d : OrderData) : ¬ (init t).Rests d := by
  intro hd
  obtain ⟨i, hi⟩ := (slots_init t).rests_iff.1 hd
  exact absurd hi (by simp [ordersIn])

/-- A run leaves a book of rings, on the stack it had. -/
theorem Slots.of_processAll (h : Slots b ring) {reqs : List MEClientRequest}
    (hrun : b.processAll reqs = .ok (b', sent)) :
    (∃ ring', Slots b' ring') ∧ b'.stackRoom = b.stackRoom := by
  refine inv_of_foldlM (fun x : MEOrderBook × List Sent =>
    (∃ ring', Slots x.1 ring') ∧ x.1.stackRoom = b.stackRoom) ?_ ⟨⟨ring, h⟩, rfl⟩ hrun
  intro x req y hx hy
  obtain ⟨⟨ring', hring⟩, hroom⟩ := hx
  obtain ⟨more, hmore, -⟩ := processAfter_eq_ok.1 hy
  exact ⟨(processed_of_eq_ok hring hmore).slots hring,
    (stackRoom_of_process hring hmore).trans hroom⟩

/-- Every book requests build is one. -/
theorem slots_of_processAll {t : TickerId} {reqs : List MEClientRequest}
    (h : (init t).processAll reqs = .ok (b, sent)) : ∃ ring, Slots b ring :=
  ((slots_init t).of_processAll h).1

end MEOrderBook
end Exchange
end TradingEcosystem
