import TradingEcosystem.Exchange.OrderTable

/-!
# What becomes of the orders of a book

An account of a run over the messages it sends: every order that was added with its quantity either
rests with that quantity or was cancelled with it, and no message of a trade was ever sent.  The
account is kept on the table of orders (`Balanced`), where an order is one entry, and read off the
book through `Tabulates`.

It also bounds a book's life.  A block of the order pool is handed out once, so a book takes fewer
than `ME_MAX_ORDER_IDS` orders in all its runs, however many of them were cancelled.
-/

set_option autoImplicit false

namespace TradingEcosystem
namespace Exchange

open TwoRuns

/-- What an account says of an order. -/
structure Terms where
  marketOrderId : OrderId
  side : Side
  price : Price
  qty : Qty
  deriving DecidableEq

def OrderData.terms (d : OrderData) : Terms := ⟨d.marketOrderId, d.side, d.price, d.qty⟩

/-- The terms of an `ADD`. -/
def Sent.added : Sent → Option Terms
  | .clientResponse _ => none
  | .marketUpdate u =>
    if u.type = .add then some ⟨u.orderId, u.side, u.price, u.qty⟩ else none

/-- The terms of a `CANCELED`. -/
def Sent.canceled : Sent → Option Terms
  | .clientResponse r =>
    if r.type = .canceled then some ⟨r.markerOrderId, r.side, r.price, r.leftQty⟩ else none
  | .marketUpdate _ => none

/-- The message is none that a trade sends: no `FILLED`, no `TRADE` and no `MODIFY`. -/
def Sent.Tradeless : Sent → Prop
  | .clientResponse r => r.type = .accepted ∨ r.type = .canceled ∨ r.type = .cancelRejected
  | .marketUpdate u => u.type = .add ∨ u.type = .cancel

/-- The orders that were added, in the order of the updates. -/
def addedTerms (sent : List Sent) : List Terms := sent.filterMap Sent.added

/-- The orders that were cancelled. -/
def canceledTerms (sent : List Sent) : List Terms := sent.filterMap Sent.canceled

namespace OrderTable

variable {t t' : OrderTable} {req : MEClientRequest} {sent sent' : List Sent}

/-- **What a request can do** to a table. -/
inductive Took (t : OrderTable) (req : MEClientRequest) : OrderTable → List Sent → Prop
  | empty : Took t req t.count
      [.clientResponse (MEOrderBook.acceptedResponse t.nextMarketOrderId req)]
  | rested (hroom : t.HasRoom req.price) : Took t req (t.count.insert (t.newOrder req))
      [.clientResponse (MEOrderBook.acceptedResponse t.nextMarketOrderId req),
        .marketUpdate (MEOrderBook.addUpdate (t.newOrder req))]
  | dropped : Took t req t []
  | missed : Took t req t [.clientResponse (MEOrderBook.cancelRejectedResponse req)]
  | removed {e : Entry} (hid : req.orderId.toNat < meMaxOrderIds)
      (he : t.owned req.clientId req.orderId = some e) : Took t req (t.remove e)
      [.marketUpdate (MEOrderBook.cancelUpdate req.orderId req e.order),
        .clientResponse (MEOrderBook.canceledResponse req e.order)]

theorem took_of_eq_ok (h : t.process req = .ok (t', sent)) : Took t req t' sent := by
  rw [process] at h
  split at h
  · rw [add] at h
    split at h
    · obtain ⟨rfl, rfl⟩ := Prod.mk.inj (Except.ok.inj h)
      exact .empty
    · split at h
      · next hroom =>
        split at h
        · obtain ⟨rfl, rfl⟩ := Prod.mk.inj (Except.ok.inj h)
          exact .rested hroom
        · exact absurd h (by simp)
      · exact absurd h (by simp)
  · rw [cancel] at h
    split at h
    · split at h
      · split at h
        · next hid =>
          split at h
          · obtain ⟨rfl, rfl⟩ := Prod.mk.inj (Except.ok.inj h)
            exact .missed
          · next e he =>
            obtain ⟨rfl, rfl⟩ := Prod.mk.inj (Except.ok.inj h)
            exact .removed hid he
        · exact absurd h (by simp)
      · exact absurd h (by simp)
    · obtain ⟨rfl, rfl⟩ := Prod.mk.inj (Except.ok.inj h)
      exact .dropped
  · exact absurd h (by simp)

/-- Entries have different numbers, and an order that is owned rests under its own ids. -/
structure Sound (t : OrderTable) : Prop where
  nodup : (t.entries.map Entry.number).Nodup
  below : ∀ e ∈ t.entries, e.number < t.ordersTaken
  owned : ∀ c o e, t.owned c o = some e →
    e ∈ t.entries ∧ e.order.clientId = c ∧ e.order.clientOrderId = o

theorem sound_empty : Sound {} where
  nodup := List.nodup_nil
  below := fun _ h => absurd h List.not_mem_nil
  owned := fun _ _ _ h => absurd h (by simp)

theorem Sound.count (h : t.Sound) : t.count.Sound := ⟨h.nodup, h.below, h.owned⟩

theorem Sound.insert (h : t.Sound) (d : OrderData) : (t.insert d).Sound where
  nodup := by
    rw [OrderTable.insert]
    dsimp only
    rw [List.map_append, List.map_singleton, ← List.concat_eq_append]
    refine h.nodup.concat fun hm => ?_
    obtain ⟨e, he, hnum⟩ := List.mem_map.1 hm
    exact absurd (h.below e he) (by rw [hnum]; exact Nat.lt_irrefl _)
  below := by
    intro e he
    rcases List.mem_append.1 he with he | he
    · exact Nat.lt_succ_of_lt (h.below e he)
    · obtain rfl := List.mem_singleton.1 he
      exact Nat.lt_succ_self _
  owned := by
    intro c o e he
    rw [OrderTable.insert] at he ⊢
    dsimp only at he ⊢
    rw [own, update_update_apply] at he
    split at he
    · next hco =>
      obtain rfl := Option.some_inj.1 he
      exact ⟨List.mem_append_right _ List.mem_cons_self, hco.1.symm, hco.2.symm⟩
    · obtain ⟨hmem, hids⟩ := h.owned c o e he
      exact ⟨List.mem_append_left _ hmem, hids⟩

/-- The number tells an entry from the others. -/
theorem Sound.eq_of_number (h : t.Sound) {e f : Entry} (he : e ∈ t.entries) (hf : f ∈ t.entries)
    (hn : e.number = f.number) : e = f := List.inj_on_of_nodup_map h.nodup he hf hn

theorem Sound.remove (h : t.Sound) (e : Entry) (he : e ∈ t.entries) : (t.remove e).Sound where
  nodup := h.nodup.sublist (List.filter_sublist.map _)
  below := fun f hf => h.below f (List.mem_of_mem_filter hf)
  owned := by
    intro c o f hf
    rw [OrderTable.remove] at hf ⊢
    dsimp only at hf ⊢
    rw [own, update_update_apply] at hf
    split at hf
    · exact absurd hf (by simp)
    · next hco =>
      obtain ⟨hmem, hc, ho⟩ := h.owned c o f hf
      refine ⟨List.mem_filter.2 ⟨hmem, ?_⟩, hc, ho⟩
      rw [decide_eq_true_iff]
      intro hnum
      rw [h.eq_of_number hmem he hnum] at hc ho
      exact hco ⟨hc.symm, ho.symm⟩

/-- The entry that leaves is the one that is missed. -/
theorem Sound.perm_remove (h : t.Sound) {e : Entry} (he : e ∈ t.entries) :
    t.entries.Perm (e :: (t.remove e).entries) := by
  have hne : t.entries.filter (fun f => decide (f.number ≠ e.number)) =
      t.entries.filter fun f => f != e := by
    refine List.filter_congr fun f hf => ?_
    rw [Bool.eq_iff_iff, decide_eq_true_iff, bne_iff_ne]
    exact not_congr ⟨h.eq_of_number hf he, fun hfe => hfe ▸ rfl⟩
  rw [OrderTable.remove, hne, ← (List.Nodup.of_map _ h.nodup).erase_eq_filter]
  exact List.perm_cons_erase he

/-- **The account of a run.** -/
structure Balanced (t : OrderTable) (sent : List Sent) : Prop where
  sound : t.Sound
  account : (addedTerms sent).Perm (t.entries.map (·.order.terms) ++ canceledTerms sent)
  taken : (addedTerms sent).length = t.ordersTaken
  tradeless : ∀ s ∈ sent, s.Tradeless

theorem balanced_empty : Balanced {} [] where
  sound := sound_empty
  account := List.Perm.refl _
  taken := rfl
  tradeless := fun _ h => absurd h List.not_mem_nil

theorem addedTerms_append (sent sent' : List Sent) :
    addedTerms (sent ++ sent') = addedTerms sent ++ addedTerms sent' := List.filterMap_append

theorem canceledTerms_append (sent sent' : List Sent) :
    canceledTerms (sent ++ sent') = canceledTerms sent ++ canceledTerms sent' :=
  List.filterMap_append

/-- Messages that neither add nor cancel an order. -/
theorem Balanced.append (h : t.Balanced sent) (hadd : addedTerms sent' = [])
    (hcancel : canceledTerms sent' = []) (htrade : ∀ s ∈ sent', s.Tradeless) :
    t.Balanced (sent ++ sent') where
  sound := h.sound
  account := by
    rw [addedTerms_append, canceledTerms_append, hadd, hcancel, List.append_nil, List.append_nil]
    exact h.account
  taken := by
    rw [addedTerms_append, hadd, List.append_nil]
    exact h.taken
  tradeless := fun s hs => (List.mem_append.1 hs).elim (h.tradeless s) (htrade s)

theorem Balanced.count (h : t.Balanced sent) : t.count.Balanced sent :=
  ⟨h.sound.count, h.account, h.taken, h.tradeless⟩

/-- An order is added. -/
theorem Balanced.insert (h : t.Balanced sent) {d : OrderData} (hadd : addedTerms sent' = [d.terms])
    (hcancel : canceledTerms sent' = []) (htrade : ∀ s ∈ sent', s.Tradeless) :
    (t.insert d).Balanced (sent ++ sent') where
  sound := h.sound.insert d
  account := by
    rw [addedTerms_append, canceledTerms_append, hadd, hcancel, List.append_nil, OrderTable.insert]
    dsimp only
    rw [List.map_append, List.map_singleton, List.append_assoc]
    refine (h.account.append_right _).trans ?_
    rw [List.append_assoc]
    exact List.perm_append_comm.append_left _
  taken := by
    rw [addedTerms_append, hadd, List.length_append, h.taken]
    rfl
  tradeless := fun s hs => (List.mem_append.1 hs).elim (h.tradeless s) (htrade s)

/-- An order is cancelled. -/
theorem Balanced.remove (h : t.Balanced sent) {e : Entry} (he : e ∈ t.entries)
    (hadd : addedTerms sent' = []) (hcancel : canceledTerms sent' = [e.order.terms])
    (htrade : ∀ s ∈ sent', s.Tradeless) : (t.remove e).Balanced (sent ++ sent') where
  sound := h.sound.remove e he
  account := by
    rw [addedTerms_append, canceledTerms_append, hadd, hcancel, List.append_nil,
      ← List.append_assoc]
    refine h.account.trans ?_
    refine (((h.sound.perm_remove he).map _).append_right _).trans ?_
    exact (List.perm_append_singleton _ _).symm
  taken := by
    rw [addedTerms_append, hadd, List.append_nil]
    exact h.taken
  tradeless := fun s hs => (List.mem_append.1 hs).elim (h.tradeless s) (htrade s)

/-- **One request.** -/
theorem Balanced.process (h : t.Balanced sent) (hp : t.process req = .ok (t', sent')) :
    t'.Balanced (sent ++ sent') := by
  cases took_of_eq_ok hp with
  | empty => exact h.count.append rfl rfl (by simp [Sent.Tradeless, MEOrderBook.acceptedResponse])
  | rested =>
    exact h.count.insert rfl rfl
      (by simp [Sent.Tradeless, MEOrderBook.acceptedResponse, MEOrderBook.addUpdate])
  | dropped => exact h.append rfl rfl (by simp)
  | missed => exact h.append rfl rfl (by simp [Sent.Tradeless, MEOrderBook.cancelRejectedResponse])
  | removed _ he =>
    exact h.remove (h.sound.owned _ _ _ he).1 rfl rfl
      (by simp [Sent.Tradeless, MEOrderBook.cancelUpdate, MEOrderBook.canceledResponse])

/-- A table never holds more than its pool. -/
theorem ordersTaken_lt (ht : t.ordersTaken < meMaxOrderIds) (hp : t.process req = .ok (t', sent)) :
    t'.ordersTaken < meMaxOrderIds := by
  cases took_of_eq_ok hp with
  | rested hroom => exact hroom.1
  | _ => exact ht

theorem processAfter_eq_ok {x y : OrderTable × List Sent} : processAfter x req = .ok y ↔
    ∃ sent, x.1.process req = .ok (y.1, sent) ∧ y.2 = x.2 ++ sent := by
  rw [processAfter, bind_eq_ok]
  constructor
  · rintro ⟨⟨t, sent⟩, ht, hy⟩
    obtain rfl := Except.ok.inj hy
    exact ⟨sent, ht, rfl⟩
  · rintro ⟨sent, ht, hy⟩
    exact ⟨(y.1, sent), ht, congrArg Except.ok (Prod.ext rfl hy.symm)⟩

/-- **Every table that requests build.** -/
theorem balanced_of_processAll {reqs : List MEClientRequest}
    (h : processAll {} reqs = .ok (t, sent)) :
    t.Balanced sent ∧ t.ordersTaken < meMaxOrderIds := by
  refine Run.inv_of_foldlM (fun x : OrderTable × List Sent =>
    x.1.Balanced x.2 ∧ x.1.ordersTaken < meMaxOrderIds) ?_
      ⟨balanced_empty, (by decide : 0 < meMaxOrderIds)⟩ h
  rintro x req y ⟨hx, hlt⟩ hy
  obtain ⟨more, hmore, hsent⟩ := processAfter_eq_ok.1 hy
  rw [hsent]
  exact ⟨hx.process hmore, ordersTaken_lt hlt hmore⟩

end OrderTable

namespace MEOrderBook

variable {b : MEOrderBook} {sent : List Sent}

/-- **The orders balance.**  After any run that returns, the orders added are those that rest and
those cancelled, each with the terms it was added with; there were fewer than the order pool has
blocks; and nothing that was sent speaks of a trade. -/
theorem orders_balance {ticker : TickerId} {reqs : List MEClientRequest}
    (h : (init ticker).processAll reqs = .ok (b, sent)) :
    (∃ resting : List OrderData, (∀ d, b.Rests d ↔ d ∈ resting) ∧
      (addedTerms sent).Perm (resting.map OrderData.terms ++ canceledTerms sent)) ∧
    (addedTerms sent).length < meMaxOrderIds ∧ ∀ s ∈ sent, s.Tradeless := by
  obtain ⟨⟨t, sent'⟩, ht, hsent, ring, htab⟩ := ((tabulates_init ticker orderHashMapSize).processAll reqs).of_ok h
  obtain rfl : sent = sent' := hsent
  obtain ⟨hbal, hlt⟩ := OrderTable.balanced_of_processAll ht
  refine ⟨⟨t.entries.map Entry.order, htab.rests_iff, ?_⟩, ?_, hbal.tradeless⟩
  · rw [List.map_map]
    exact hbal.account
  · rw [hbal.taken]
    exact hlt

/-- Two orders at one price that cross, and the first of them cancelled: one is left. -/
theorem orders_balance_crossing : ∃ (b : MEOrderBook) (sent : List Sent),
    (init 0).processAll
      [{ requestType := .new, clientId := 1, tickerId := 0, orderId := 5, price := 10, qty := 3,
         side := .buy },
       { requestType := .new, clientId := 2, tickerId := 0, orderId := 6, price := 10, qty := 4,
         side := .sell },
       { requestType := .cancel, clientId := 1, tickerId := 0, orderId := 5 }] = .ok (b, sent) ∧
    addedTerms sent = [⟨1, .buy, 10, 3⟩, ⟨2, .sell, 10, 4⟩] ∧
    canceledTerms sent = [⟨1, .buy, 10, 3⟩] ∧
    (∃ resting : List OrderData, (∀ d, b.Rests d ↔ d ∈ resting) ∧
      (addedTerms sent).Perm (resting.map OrderData.terms ++ canceledTerms sent)) ∧
    (addedTerms sent).length < meMaxOrderIds ∧ ∀ s ∈ sent, s.Tradeless := by
  obtain ⟨⟨b, sent⟩, hrun, hsent, -⟩ := ((tabulates_init 0 orderHashMapSize).processAll _).to_ok
    (y := OrderTable.processAll {}
      [{ requestType := .new, clientId := 1, tickerId := 0, orderId := 5, price := 10, qty := 3,
         side := .buy },
       { requestType := .new, clientId := 2, tickerId := 0, orderId := 6, price := 10, qty := 4,
         side := .sell },
       { requestType := .cancel, clientId := 1, tickerId := 0, orderId := 5 }]) rfl
  obtain rfl := hsent
  exact ⟨b, _, hrun, by decide, by decide, orders_balance hrun⟩

end MEOrderBook
end Exchange
end TradingEcosystem
