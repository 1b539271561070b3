import TradingEcosystem.Trading.WellFormedBook

/-!
# Null pointers

`NullSafe` says that a call follows no null pointer.  Every link of a well-formed book leads
somewhere, so that an update finds a null pointer in one place only: `best_ask_updated`, which looks
at the best bid for a `SELL` as soon as there are asks (`WellFormed.nullSafe_iff`).  The books a feed
builds have no asks in that sense, but no ids in their table either, and a `MODIFY` follows the entry
(`Filled.nullDeref_iff`).
-/

set_option autoImplicit false

namespace TradingEcosystem
namespace Trading

open Run Ring

/-- **The call follows no null pointer.** -/
def NullSafe {α : Type} (x : Except Fault α) : Prop := x ≠ .error .nullDeref

section NullSafe

variable {α β : Type} {x : Except Fault α} {f : α → Except Fault β}

@[simp] theorem nullSafe_ok (a : α) : NullSafe (.ok a) := by simp [NullSafe]

@[simp] theorem nullSafe_error_iff (e : Fault) :
    NullSafe (.error e : Except Fault α) ↔ e ≠ .nullDeref := by
  simp [NullSafe]

@[simp] theorem nullSafe_nonNull_iff (p : Option Ptr) : NullSafe (nonNull p) ↔ p ≠ none := by
  cases p <;> simp

theorem nullSafe_assert (cond : Prop) [Decidable cond] (msg : String) :
    NullSafe (assert cond msg) := by
  rw [assert]
  split <;> simp

/-- One call after the other. -/
theorem NullSafe.bind (hx : NullSafe x) (hf : ∀ a, x = .ok a → NullSafe (f a)) :
    NullSafe (x >>= f) := by
  cases x with
  | error e => simpa using hx
  | ok a => exact hf a rfl

/-- The first of two calls. -/
theorem NullSafe.of_bind (h : NullSafe (x >>= f)) : NullSafe x := by
  rintro rfl
  exact h rfl

end NullSafe

theorem nullSafe_deallocate {T : Type} (p : MemPool T) (a : Ptr) : NullSafe (p.deallocate a) :=
  (nullSafe_assert _ _).bind fun _ _ => (nullSafe_assert _ _).bind fun _ _ => by simp

theorem nullSafe_foldlM {β σ : Type} {f : σ → β → Except Fault σ} (hf : ∀ s x, NullSafe (f s x))
    (s : σ) (xs : List β) : NullSafe (xs.foldlM f s) := by
  induction xs generalizing s with
  | nil => simp
  | cons x xs ih =>
    rw [List.foldlM_cons]
    exact (hf s x).bind fun s' _ => ih s'

namespace MarketOrderBook

variable {b c : MarketOrderBook} {bids asks levels : List Ptr} {ring : Nat → List Ptr}
  {u : MEMarketUpdate} {head : Option Ptr}

/-! ## Ladders -/

/-- The loop stays in the ladder. -/
theorem LadderHolds.seekLevel (h : b.LadderHolds head levels) (ahead : Price → Bool) (a : Ptr)
    (fuel : Nat) {l : Ptr} (hl : l ∈ levels) : NullSafe (b.seekLevel ahead a fuel l) ∧
      ∀ m, b.seekLevel ahead a fuel l = .ok m → m ∈ levels := by
  induction fuel generalizing l with
  | zero => simp [MarketOrderBook.seekLevel]
  | succ fuel ih =>
    rw [MarketOrderBook.seekLevel]
    split
    · obtain ⟨n, hn, -, -, hnext, -⟩ := h.links hl
      rw [hnext, nonNull_some, ok_bind]
      exact ih hn
    · exact ⟨nullSafe_ok _, fun m hm => Except.ok.inj hm ▸ hl⟩

/-- Putting a new level in front of one of the ladder. -/
theorem LadderHolds.nullSafe_linkLevelBefore (h : b.LadderHolds head levels) {l current : Ptr}
    (hl : l ∉ levels) (hcurrent : current ∈ levels) : NullSafe (b.linkLevelBefore l current) := by
  obtain ⟨-, -, p, -, -, hprev⟩ := h.links hcurrent
  have hne : current ≠ l := fun he => hl (he ▸ hcurrent)
  rw [linkLevelBefore]
  simp only [setNextLevel, setPrevLevel, level_setLevel, if_neg hne, hprev, nonNull_some, ok_bind,
    pure_eq_ok, nullSafe_ok]

/-- The loop and the four assignments, with anything after them. -/
theorem LadderHolds.nullSafe_insert (h : b.LadderHolds head levels) (ahead : Price → Bool) {a l : Ptr}
    (ha : a ∈ levels) (hl : l ∉ levels) {f : MarketOrderBook → Except Fault MarketOrderBook}
    (hf : ∀ c, NullSafe (f c)) (fuel : Nat) :
    NullSafe (b.seekLevel ahead a fuel a >>= fun current => b.linkLevelBefore l current >>= f) := by
  obtain ⟨hseek, hmem⟩ := h.seekLevel ahead a fuel ha
  exact hseek.bind fun current hcurrent =>
    (h.nullSafe_linkLevelBefore hl (hmem current hcurrent)).bind fun c _ => hf c

theorem nullSafe_addOrdersAtPriceLevel (hbids : b.LadderHolds b.bidPriceLevels bids)
    (hasks : b.LadderHolds b.askPriceLevels asks) {l : Ptr} (hl : l ∉ bids ∧ l ∉ asks) :
    NullSafe (b.addOrdersAtPriceLevel l) := by
  set c := b.setPriceLevel (b.level l).price (some l) with hc
  have hbids' : c.LadderHolds c.bidPriceLevels bids := hbids
  have hasks' : c.LadderHolds c.askPriceLevels asks := hasks
  rw [addOrdersAtPriceLevel]
  dsimp only
  rw [← hc]
  split
  · exact nullSafe_ok _
  · next head hhead =>
    split
    · next hside =>
      rw [if_pos hside] at hhead
      refine hbids'.nullSafe_insert _ (List.mem_of_head? (hbids'.1.trans hhead)) hl.1 (fun d => ?_) _
      split <;> split <;> exact nullSafe_ok _
    · next hside =>
      rw [if_neg hside] at hhead
      refine hasks'.nullSafe_insert _ (List.mem_of_head? (hasks'.1.trans hhead)) hl.2 (fun d => ?_) _
      split <;> split <;> exact nullSafe_ok _

/-! ## Clearing -/

theorem nullSafe_clearBehind (head : Ptr) (fuel : Nat) (b : MarketOrderBook) :
    NullSafe (clearBehind head fuel b) := by
  induction fuel generalizing b with
  | zero => simp [clearBehind]
  | succ fuel ih =>
    rw [clearBehind]
    split
    · exact nullSafe_ok _
    · split
      · simp
      · exact (nullSafe_deallocate _ _).bind fun _ _ => ih _

theorem nullSafe_clearLadder (b : MarketOrderBook) (head : Option Ptr) :
    NullSafe (b.clearLadder head) := by
  cases head with
  | none => exact nullSafe_ok _
  | some l =>
    exact (nullSafe_clearBehind _ _ _).bind fun _ _ =>
      (nullSafe_deallocate _ _).bind fun _ _ => nullSafe_ok _

/-- `CLEAR` may stop at an `ASSERT`, but follows no null pointer, whatever the book is. -/
theorem nullSafe_clear (b : MarketOrderBook) : NullSafe b.clear := by
  have horders : ∀ (b : MarketOrderBook) ks, NullSafe (b.clearOrders ks) := by
    intro b ks
    refine nullSafe_foldlM (fun b k => ?_) b ks
    split
    · exact nullSafe_ok _
    · exact (nullSafe_deallocate _ _).bind fun _ _ => nullSafe_ok _
  exact (horders _ _).bind fun _ _ => (nullSafe_clearLadder _ _).bind fun _ _ =>
    (nullSafe_clearLadder _ _).bind fun _ _ => nullSafe_ok _

/-! ## Well-formed books -/

/-- `best_ask_updated` looks at the best bid for every `SELL`, once there are asks. -/
theorem nullSafe_bestAskUpdated_iff : NullSafe (b.bestAskUpdated u) ↔
    (b.askPriceLevels ≠ none → u.side = .sell → b.bidPriceLevels ≠ none) := by
  rw [bestAskUpdated, ← and_imp]
  by_cases hasked : b.askPriceLevels ≠ none ∧ u.side = .sell
  · rw [if_pos hasked]
    cases b.bidPriceLevels <;> simp [hasked]
  · rw [if_neg hasked]
    simp [hasked]

namespace WellFormed

variable (h : WellFormed b bids asks ring)
include h

/-- The pools hand out blocks that are in no ring. -/
theorem fresh_level : b.nextLevelPtr ∉ bids ∧ b.nextLevelPtr ∉ asks := by
  have hlive : ¬ b.priceLevelPool.Live b.nextLevelPtr := fun hlive =>
    (h.levelFrontier.lt_of_live hlive).ne rfl
  rw [h.liveLevels, not_or] at hlive
  exact hlive

theorem nullSafe_addOrder (d : MarketOrderData) :
    NullSafe ((b.withOrder d).addOrder b.nextOrderPtr) := by
  cases hslot : b.getPriceLevel d.price with
  | none =>
    have hslot' : (b.withOrder d).getPriceLevel d.price = none := hslot
    rw [addOrder]
    simp only [order_withOrder_self, hslot']
    set c := ((b.withOrder d).setPrevOrder b.nextOrderPtr (some b.nextOrderPtr)).setNextOrder
      b.nextOrderPtr _ with hc
    have hpool : c.priceLevelPool = b.priceLevelPool := rfl
    rw [hpool]
    by_cases hroom : b.priceLevelPool.Room
    · rw [MemPool.allocate_eq h.levelFrontier hroom, ok_bind]
      obtain ⟨hbids, hasks⟩ := h.fresh_level
      -- the ladders do not see the block that was handed out
      have hladder : ∀ x {head levels}, b.LadderHolds head levels → b.nextLevelPtr ∉ levels →
          { c with priceLevelPool := b.priceLevelPool.push x }.LadderHolds head levels :=
        fun x _ _ hl hfresh => hl.congr fun m hm =>
          MemPool.get_push_ne b.priceLevelPool x (ne_of_mem_of_not_mem hm hfresh)
      exact (nullSafe_addOrdersAtPriceLevel (hladder _ h.bidLadder hbids)
        (hladder _ h.askLadder hasks) ⟨hbids, hasks⟩).bind fun _ _ => nullSafe_ok _
    · rw [MemPool.allocate_full h.levelFrontier hroom, error_bind]
      simp
  | some l =>
    have hslot' : (b.withOrder d).getPriceLevel d.price = some l := hslot
    obtain ⟨a, ha, hfirst, z, hz⟩ := h.exists_first hslot
    have hne : a ≠ b.nextOrderPtr := (h.orderFrontier.lt_of_live ((h.liveOrders a).2 ⟨_, ha⟩)).ne
    have hfirst' : ((b.withOrder d).level l).firstOrder = some a := hfirst
    have hz' : ((b.withOrder d).order a).prevOrder = some z := by
      rw [order_withOrder_ne b d hne]
      exact hz
    rw [addOrder]
    simp only [order_withOrder_self, hslot', hfirst', hz', nonNull_some, ok_bind, pure_eq_ok,
      nullSafe_ok]

/-- Past the test at the top no null pointer is followed. -/
theorem nullSafe_onMarketUpdate (hu : b.Accepts u) (htest : NullSafe (b.bestAskUpdated u)) :
    NullSafe (b.onMarketUpdate u) := by
  refine htest.bind fun _ _ => ?_
  split
  · by_cases hroom : b.orderPool.Room
    · rw [MemPool.allocate_eq h.orderFrontier hroom, ok_bind]
      exact h.nullSafe_addOrder (dataOf u)
    · rw [MemPool.allocate_full h.orderFrontier hroom, error_bind]
      simp
  · next htype =>
    obtain ⟨p, hp⟩ : ∃ p, b.orderIdToOrder u.orderId = some p := by
      rcases hu with ⟨hadd, -⟩ | ⟨-, hid⟩ | htrade | hclear
      · exact absurd (htype.symm.trans hadd) (by decide)
      · exact Option.ne_none_iff_exists'.1 hid
      · exact absurd (htype.symm.trans htrade) (by decide)
      · exact absurd (htype.symm.trans hclear) (by decide)
    rw [orderAt, if_pos (h.idBound _ _ hp), hp, ok_bind, nonNull_some, ok_bind]
    exact nullSafe_ok _
  · rw [orderAt]
    split <;> simp
  · exact nullSafe_clear b
  · exact nullSafe_ok _

/-- **One update to a well-formed book** follows a null pointer only to compare a `SELL` with the
best bid that is not there. -/
theorem nullSafe_iff (hu : b.Accepts u) : NullSafe (b.onMarketUpdate u) ↔
    (b.askPriceLevels ≠ none → u.side = .sell → b.bidPriceLevels ≠ none) := by
  rw [← nullSafe_bestAskUpdated_iff]
  exact ⟨NullSafe.of_bind, h.nullSafe_onMarketUpdate hu⟩

end WellFormed

end MarketOrderBook

/-! ## Whole feeds -/

namespace FeedBook

/-- An update makes sense: what is added has a new id below the size of the table, what is changed
or taken out is there.  Prices may be anything. -/
def AcceptsId (l : FeedBook) (u : MEMarketUpdate) : Prop :=
  (u.type = .add ∧ (∀ d ∈ l, d.orderId ≠ u.orderId) ∧ u.orderId.toNat < meMaxOrderIds) ∨
    ((u.type = .modify ∨ u.type = .cancel) ∧ ∃ d ∈ l, d.orderId = u.orderId) ∨
      u.type = .trade ∨ u.type = .clear

/-- A feed that makes sense. -/
def AcceptsIds : FeedBook → List MEMarketUpdate → Prop
  | _, [] => True
  | l, u :: us => l.AcceptsId u ∧ AcceptsIds (l.apply u) us

/-- What is changed has an id below the size of the table, because what was added had. -/
theorem AcceptsIds.modify_lt {l : FeedBook} {us : List MEMarketUpdate} (h : l.AcceptsIds us)
    (hl : ∀ d ∈ l, d.orderId.toNat < meMaxOrderIds) :
    ∀ u ∈ us, u.type = .modify → u.orderId.toNat < meMaxOrderIds := by
  induction us generalizing l with
  | nil => simp
  | cons v us ih =>
    obtain ⟨hv, hus⟩ := h
    refine List.forall_mem_cons.2 ⟨fun htype => ?_, ih hus fun d hd => ?_⟩
    · obtain ⟨d, hd, hid⟩ : ∃ d ∈ l, d.orderId = v.orderId := by
        simpa [AcceptsId, htype] using hv
      exact hid ▸ hl d hd
    · rcases of_mem_apply hd with ⟨hadd, rfl⟩ | ⟨e, he, hde⟩
      · have hnew : (∀ d ∈ l, d.orderId ≠ v.orderId) ∧ v.orderId.toNat < meMaxOrderIds := by
          simpa [AcceptsId, hadd] using hv
        exact hnew.2
      · rw [hde]
        exact hl e he

end FeedBook

namespace MarketOrderBook

/-- The update follows no null pointer. -/
def StepsSafely (b : MarketOrderBook) (u : MEMarketUpdate) : Prop := NullSafe (b.onMarketUpdate u)

theorem Filled.stepsSafely_iff {b : MarketOrderBook} {ring : Nat → List Ptr} (h : Filled b ring)
    {u : MEMarketUpdate} (hid : u.type = .modify → u.orderId.toNat < meMaxOrderIds) :
    StepsSafely b u ↔ u.type ≠ .modify := by
  rw [StepsSafely, NullSafe, ne_eq, ne_eq, h.nullDeref_iff]
  exact not_congr ⟨And.left, fun htype => ⟨htype, hid htype⟩⟩

theorem along_stepsSafely_iff {us : List MEMarketUpdate} (hv : FeedBook.AcceptsIds [] us) :
    Along Next StepsSafely init us ↔ Along Next (fun _ u => u.type ≠ .modify) init us := by
  refine along_congr (fun b => ∃ ring, Filled b ring)
    (fun _ u => u.type = .modify → u.orderId.toNat < meMaxOrderIds) ?_ ?_ ⟨_, filled_init⟩
    (along_of_forall_mem (hv.modify_lt (by simp)) _)
  · rintro b u ⟨ring, h⟩ hid
    exact h.stepsSafely_iff hid
  · rintro b u b' ⟨ring, h⟩ - - hb'
    exact h.next hb'

/-- **Null pointers**: a feed meets one with a `MODIFY`, and an update to a well-formed book with a
`SELL` while there are asks and no bids. -/
theorem onMarketUpdate_nullSafe_iff {us : List MEMarketUpdate} (hv : FeedBook.AcceptsIds [] us)
    {b : MarketOrderBook} {bids asks : List Ptr} {ring : Nat → List Ptr} {u : MEMarketUpdate}
    (h : WellFormed b bids asks ring) (hu : b.Accepts u) :
    (Along Next StepsSafely init us ↔ Along Next (fun _ u => u.type ≠ .modify) init us) ∧
      (StepsSafely b u ↔
        (b.askPriceLevels ≠ none → u.side = .sell → b.bidPriceLevels ≠ none)) :=
  ⟨along_stepsSafely_iff hv, h.nullSafe_iff hu⟩

/-- A first order is changed. -/
def addModify : List MEMarketUpdate := [addFirst, { addFirst with type := .modify, qty := 3 }]

theorem acceptsIds_addModify : FeedBook.AcceptsIds [] addModify :=
  ⟨Or.inl ⟨rfl, by simp, by decide⟩,
    Or.inr (Or.inl ⟨Or.inl rfl, ⟨1, .buy, 100, 5, 1⟩, by decide, rfl⟩), trivial⟩

/-- A trade on the side of the only order. -/
def sellTrade : MEMarketUpdate := { addFirst with type := .trade, side := .sell }

/-- The only order. -/
def askOrder : MarketOrderData := ⟨1, .sell, 100, 5, 1⟩

theorem wellFormed_askOrder : WellFormed (oneAsk askOrder) [] [0] (oneRing 100) :=
  wellFormed_oneAsk askOrder (by decide) (by decide)

theorem onMarketUpdate_nullSafe_iff_addModify :
    (Along Next StepsSafely init addModify ↔
      Along Next (fun _ u => u.type ≠ .modify) init addModify) ∧
    (StepsSafely (oneAsk askOrder) sellTrade ↔ ((oneAsk askOrder).askPriceLevels ≠ none →
      sellTrade.side = .sell → (oneAsk askOrder).bidPriceLevels ≠ none)) :=
  onMarketUpdate_nullSafe_iff acceptsIds_addModify wellFormed_askOrder
    (Or.inr (Or.inr (Or.inl rfl)))

/-- Both happen. -/
theorem not_stepsSafely :
    (¬ ∀ us, FeedBook.AcceptsIds [] us → Along Next StepsSafely init us) ∧
    ¬ ∀ b bids asks ring u, WellFormed b bids asks ring → b.Accepts u → StepsSafely b u := by
  constructor
  · intro h
    have hno := (along_stepsSafely_iff acceptsIds_addModify).1 (h addModify acceptsIds_addModify)
    obtain ⟨b, hb, -⟩ := filled_init.add rfl (hasRoom_init addFirst.price)
    exact (hno.2 b hb).1 rfl
  · intro h
    have haccepts : (oneAsk askOrder).Accepts sellTrade := Or.inr (Or.inr (Or.inl rfl))
    have hsafe := h _ _ _ _ sellTrade wellFormed_askOrder haccepts
    exact (wellFormed_askOrder.nullSafe_iff haccepts).1 hsafe (by decide) rfl rfl

end MarketOrderBook
end Trading
end TradingEcosystem
