import TradingEcosystem.Lib.TwoRuns
import TradingEcosystem.Trading.PositionProfit

/-!
# Fields without an initialiser

Nothing sets `open_vwap_` and `volume_` before the first call, so two keepers may start with other
contents of them.  `Reads` says which elements of `open_vwap_` the fields a client sees are computed
from, call by call.  As long as the two runs have the same there, and the same volume, they show the
same (`same_along`); with rational numbers for `double` that is also necessary (`same_iff`).
-/

set_option autoImplicit false

namespace TradingEcosystem
namespace Trading
namespace PositionInfo

open TwoRuns

variable {F : Type} [Add F] [Sub F] [Mul F] [Div F] [IntCast F]

/-- The fields that are set before the first call. -/
structure SameProfit (p q : PositionInfo F) : Prop where
  position : p.position = q.position
  realPnL : p.realPnL = q.realPnL
  unrealPnL : p.unrealPnL = q.unrealPnL
  totalPnL : p.totalPnL = q.totalPnL

/-- **What a client sees is the same.** -/
def Same (p q : PositionInfo F) : Prop := SameProfit p q ∧ p.volume = q.volume

/-- The element of `open_vwap_` that an open position is valued by. -/
def openIndex (position : Int32) : UInt64 :=
  if position > 0 then sideToIndex .buy else sideToIndex .sell

/-- The fill sets the element anew: it changes the sign of the position. -/
def Overwrites (p : PositionInfo F) (r : MEClientResponse) (i : UInt64) : Prop :=
  (p.Against r ∧ p.Flips r) ∧ (i = sideToIndex r.side ∨ i = oppositeIndex r.side)

/-- **What a call reads of `open_vwap_`**: a fill against the position the element of the other
side, and every call that leaves a position open the element this is valued by, unless it has set
that anew. -/
def Reads (p : PositionInfo F) (i : UInt64) : Call → Prop
  | .addFill r => p.InBounds r ∧ (p.Against r ∧ i = oppositeIndex r.side ∨
      p.newPosition r ≠ 0 ∧ i = openIndex (p.newPosition r) ∧ ¬ p.Overwrites r i)
  | .updateBBO levels bbo => Quoted levels bbo ∧ p.position ≠ 0 ∧ i = openIndex p.position

/-! ## The same in both runs -/

section Same

variable {p q : PositionInfo F} {r : MEClientResponse}

omit [Add F] in
theorem worthAt_congr {position : Int32} {v w : UInt64 → F}
    (h : position ≠ 0 → v (openIndex position) = w (openIndex position)) (price : F) :
    worthAt position v price = worthAt position w price := by
  rw [worthAt, worthAt]
  by_cases hflat : position = 0
  · rw [if_pos hflat, if_pos hflat]
  · have hread := h hflat
    rw [openIndex] at hread
    rw [if_neg hflat, if_neg hflat]
    by_cases hlong : position > 0
    · rw [if_pos hlong] at hread
      rw [if_pos hlong, if_pos hlong, hread]
    · rw [if_neg hlong] at hread
      rw [if_neg hlong, if_neg hlong, hread]

omit [Add F] [Sub F] [Mul F] [Div F] in
theorem SameProfit.tests_iff (h : SameProfit p q) (r : MEClientResponse) :
    q.newPosition r = p.newPosition r ∧ (q.Against r ↔ p.Against r) ∧
      (q.Flips r ↔ p.Flips r) ∧ (q.InBounds r ↔ p.InBounds r) := by
  have hposition := h.position
  have hnew : q.newPosition r = p.newPosition r := by rw [newPosition, newPosition, hposition]
  have hagainst : q.Against r ↔ p.Against r := by rw [Against, Against, hposition]
  have hflips : q.Flips r ↔ p.Flips r := by rw [Flips, Flips, hnew, hposition]
  refine ⟨hnew, hagainst, hflips, ?_⟩
  rw [InBounds, InBounds, hagainst, hflips]

omit [Sub F] in
/-- The elements after a fill are the same where they are set anew or were the same. -/
theorem SameProfit.vwapAfter_eq (h : SameProfit p q)
    (hopp : p.Against r → p.openVwap (oppositeIndex r.side) = q.openVwap (oppositeIndex r.side))
    {i : UInt64} (hi : ¬ p.Overwrites r i → p.openVwap i = q.openVwap i) :
    p.vwapAfter r i = q.vwapAfter r i := by
  obtain ⟨hnew, hagainst, hflips, -⟩ := h.tests_iff r
  rw [vwapAfter, vwapAfter]
  by_cases hag : p.Against r
  · have hentry : p.entryPrice r = q.entryPrice r := by
      rw [entryPrice, entryPrice, hopp hag, h.position]
    rw [if_pos hag, if_pos (hagainst.2 hag), hentry, hnew]
    by_cases hfl : p.Flips r
    · rw [if_pos hfl, if_pos (hflips.2 hfl)]
      by_cases hset : i = sideToIndex r.side ∨ i = oppositeIndex r.side
      · by_cases hio : i = oppositeIndex r.side
        · rw [hio, Function.update_self, Function.update_self]
        · obtain rfl := hset.resolve_right hio
          rw [Function.update_of_ne hio, Function.update_self, Function.update_of_ne hio,
            Function.update_self]
      · obtain ⟨hside, hio⟩ := not_or.1 hset
        rw [Function.update_of_ne hio, Function.update_of_ne hside, Function.update_of_ne hio,
          Function.update_of_ne hio, Function.update_of_ne hside, Function.update_of_ne hio]
        exact hi fun ho => hset ho.2
    · rw [if_neg hfl, if_neg (mt hflips.1 hfl)]
      by_cases hio : i = oppositeIndex r.side
      · rw [hio, Function.update_self, Function.update_self]
      · rw [Function.update_of_ne hio, Function.update_of_ne hio]
        exact hi fun ho => hfl ho.1.2
  · have hkept := hi fun ho => hag ho.1.1
    rw [if_neg hag, if_neg (mt hagainst.1 hag)]
    by_cases hside : i = sideToIndex r.side
    · rw [hside, Function.update_self, Function.update_self, ← hside, hkept]
    · rw [Function.update_of_ne hside, Function.update_of_ne hside, hkept]

theorem SameProfit.realAfter_eq (h : SameProfit p q)
    (hopp : p.Against r → p.openVwap (oppositeIndex r.side) = q.openVwap (oppositeIndex r.side)) :
    p.realAfter r = q.realAfter r := by
  obtain ⟨-, hagainst, -, -⟩ := h.tests_iff r
  rw [realAfter, realAfter]
  by_cases hag : p.Against r
  · rw [if_pos hag, if_pos (hagainst.2 hag), entryPrice, entryPrice, hopp hag, closedQty, closedQty,
      h.position, h.realPnL]
  · rw [if_neg hag, if_neg (mt hagainst.1 hag), h.realPnL]

/-- **One call in both runs.** -/
theorem SameProfit.call (h : SameProfit p q) {c : Call}
    (hread : ∀ i, p.Reads i c → p.openVwap i = q.openVwap i) :
    Agree SameProfit (p.call c) (q.call c) := by
  cases c with
  | addFill r =>
    obtain ⟨hnew, -, -, hbounds⟩ := h.tests_iff r
    change Agree SameProfit (p.addFill r) (q.addFill r)
    rw [addFill_cases, addFill_cases]
    refine Agree.ite hbounds.symm (fun hin => ?_) fun _ => rfl
    have hopp : p.Against r →
        p.openVwap (oppositeIndex r.side) = q.openVwap (oppositeIndex r.side) :=
      fun hag => hread _ ⟨hin, Or.inl ⟨hag, rfl⟩⟩
    have hworth : worthAt (p.newPosition r) (p.vwapAfter r) (ofUInt64 r.price) =
        worthAt (q.newPosition r) (q.vwapAfter r) (ofUInt64 r.price) := by
      rw [hnew]
      refine worthAt_congr (fun hopen => h.vwapAfter_eq hopp fun hset => ?_) _
      exact hread _ ⟨hin, Or.inr ⟨hopen, rfl, hset⟩⟩
    exact ⟨hnew.symm, h.realAfter_eq hopp, hworth, congrArg (fun x => x + x) hworth⟩
  | updateBBO levels bbo =>
    change Agree SameProfit (p.updateBBO levels bbo) (q.updateBBO levels bbo)
    by_cases hq : Quoted levels bbo
    · obtain ⟨bid, ask, hquote⟩ := updateBBO_of_quoted (F := F) hq
      rw [hquote p, hquote q, ← h.position]
      by_cases hflat : p.position = 0
      · rw [if_pos hflat, if_pos hflat]
        exact h
      · have hworth := (unrealPnL_markAtQuote p hflat bid ask).trans
          (worthAt_congr (fun hopen => hread _ ⟨hq, hopen, rfl⟩) _)
        rw [h.position, ← unrealPnL_markAtQuote q (h.position ▸ hflat) bid ask] at hworth
        rw [if_neg hflat, if_neg hflat]
        refine ⟨h.position, h.realPnL, hworth, ?_⟩
        exact congrArg₂ (· + ·) hworth h.realPnL
    · obtain ⟨stop, hstop⟩ := updateBBO_of_not_quoted (F := F) hq
      rw [hstop p, hstop q]
      refine Agree.ite (by rw [h.position]) (fun _ => h) fun _ => ?_
      cases stop
      · exact rfl
      · exact h

/-- What a call adds to the volume. -/
def addedVolume : Call → Qty
  | .addFill r => r.execQty
  | .updateBBO _ _ => 0

theorem volume_call {p' : PositionInfo F} {c : Call} (h : p.call c = .ok p') :
    p'.volume = p.volume + addedVolume c := by
  cases c with
  | addFill r =>
    change p.addFill r = .ok p' at h
    rw [addFill_cases] at h
    split at h
    · obtain rfl := Except.ok.inj h
      rfl
    · cases h
  | updateBBO levels bbo =>
    obtain ⟨unreal, total, rfl⟩ := updateBBO_frame h
    exact (UInt32.add_zero _).symm

/-- **One call in both runs, with the volume.** -/
theorem SameProfit.call_same (h : SameProfit p q) {c : Call} (hvolume : p.volume = q.volume)
    (hread : ∀ i, p.Reads i c → p.openVwap i = q.openVwap i) :
    Agree Same (p.call c) (q.call c) := by
  have hcall := h.call hread
  cases hp : p.call c <;> cases hq : q.call c <;> rw [hp, hq] at hcall
  · exact hcall
  · exact hcall
  · exact hcall
  · exact ⟨hcall, by rw [volume_call hp, volume_call hq, hvolume]⟩

end Same

/-! ## Two runs -/

/-- A position before the first call, with whatever was in memory. -/
def uninit (openVwap : UInt64 → F) (volume : Qty) : PositionInfo F := { openVwap, volume }

/-- A call takes both runs on. -/
def NextBoth (x : PositionInfo F × PositionInfo F) (c : Call)
    (x' : PositionInfo F × PositionInfo F) : Prop :=
  x.1.call c = .ok x'.1 ∧ x.2.call c = .ok x'.2

/-- Both runs show the same after the call, or stop with the same error. -/
def StaysSame (x : PositionInfo F × PositionInfo F) (c : Call) : Prop :=
  Agree Same (x.1.call c) (x.2.call c)

/-- **The condition**: the volumes and what the call reads of `open_vwap_` are the same in both
runs. -/
def ReadsSame (x : PositionInfo F × PositionInfo F) (c : Call) : Prop :=
  x.1.volume = x.2.volume ∧ ∀ i, x.1.Reads i c → x.1.openVwap i = x.2.openVwap i

omit [Add F] [Sub F] [Mul F] [Div F] in
theorem SameProfit.uninit (v w : UInt64 → F) (m n : Qty) :
    SameProfit (uninit v m) (uninit w n) := ⟨rfl, rfl, rfl, rfl⟩

theorem SameProfit.next {x x' : PositionInfo F × PositionInfo F} (h : SameProfit x.1 x.2) {c : Call}
    (hread : ReadsSame x c) (hnext : NextBoth x c x') : SameProfit x'.1 x'.2 := by
  have hcall := h.call hread.2
  rwa [hnext.1, hnext.2] at hcall

/-- Two runs from any two contents of memory show the same as long as no call reads an element
that is not the same. -/
theorem same_along (v w : UInt64 → F) (m n : Qty) (calls : List Call)
    (h : Run.Along NextBoth ReadsSame (uninit v m, uninit w n) calls) :
    Run.Along NextBoth StaysSame (uninit v m, uninit w n) calls := by
  have hstep : ∀ (x : PositionInfo F × PositionInfo F) (c : Call), SameProfit x.1 x.2 →
      ReadsSame x c → StaysSame x c := fun _ _ hx hread => hx.call_same hread.1 hread.2
  exact h.imp (fun x => SameProfit x.1 x.2) hstep (fun _ _ _ hx => hx.next)
    (SameProfit.uninit v w m n)

/-! ## With rational numbers

The condition is then necessary, too, for calls that return and fills that are not empty. -/

section Exact

variable {p q : PositionInfo ℚ} {r : MEClientResponse}

theorem worthAt_inj {position : Int32} (hopen : position ≠ 0) {v w : UInt64 → ℚ} {price : ℚ}
    (h : worthAt position v price = worthAt position w price) :
    v (openIndex position) = w (openIndex position) := by
  have hsize : (ofInt32 position.abs : ℚ) ≠ 0 := Int.cast_ne_zero.2 (toInt_abs_ne_zero hopen)
  rw [worthAt, worthAt, if_neg hopen, if_neg hopen] at h
  rw [openIndex]
  by_cases hlong : position > 0
  · rw [if_pos hlong, if_pos hlong] at h
    rw [if_pos hlong]
    exact (div_left_inj' hsize).1 (sub_right_injective (mul_right_cancel₀ hsize h))
  · rw [if_neg hlong, if_neg hlong] at h
    rw [if_neg hlong]
    exact (div_left_inj' hsize).1 (sub_left_injective (mul_right_cancel₀ hsize h))

/-- The factors of what a fill against the position realizes. -/
theorem Against.factors_ne (hag : p.Against r) (hqty : r.execQty ≠ 0) :
    (ofInt32 (p.closedQty r) : ℚ) ≠ 0 ∧ (ofInt32 p.position.abs : ℚ) ≠ 0 ∧
      (ofInt32 (sideToValue r.side) : ℚ) ≠ 0 := by
  have hposition : p.position ≠ 0 := by
    intro h0
    rw [Against, h0, Int32.zero_mul] at hag
    exact hag (Int32.le_refl 0)
  have hvalue : sideToValue r.side ≠ 0 := by
    intro h0
    rw [Against, h0, Int32.mul_zero] at hag
    exact hag (Int32.le_refl 0)
  have hsize := toInt_abs_ne_zero hposition
  refine ⟨Int.cast_ne_zero.2 ?_, Int.cast_ne_zero.2 hsize, Int.cast_ne_zero.2 ?_⟩
  · have hmin : p.closedQty r = if r.execQty.toInt32 ≤ p.position.abs then r.execQty.toInt32
      else p.position.abs := rfl
    rw [hmin]
    split
    · intro h0
      rw [toInt_toInt32] at h0
      have hlt := r.execQty.toNat_lt
      have hne : r.execQty.toNat ≠ 0 := fun h => hqty (UInt32.toNat_inj.1 h)
      rw [Int.bmod_def] at h0
      split at h0 <;> omega
    · exact hsize
  · exact fun h0 => hvalue (Int32.toInt_inj.1 h0)

/-- The profit realized tells the element of the other side. -/
theorem SameProfit.openVwap_eq_of_real (h : SameProfit p q) (hag : p.Against r)
    (hqty : r.execQty ≠ 0) (hreal : p.realAfter r = q.realAfter r) :
    p.openVwap (oppositeIndex r.side) = q.openVwap (oppositeIndex r.side) := by
  obtain ⟨-, hagainst, -, -⟩ := h.tests_iff r
  obtain ⟨hclosed, hsize, hvalue⟩ := hag.factors_ne hqty
  have hclosedQty : q.closedQty r = p.closedQty r := by rw [closedQty, closedQty, h.position]
  rw [realAfter, realAfter, if_pos hag, if_pos (hagainst.2 hag), hclosedQty, entryPrice,
    entryPrice, ← h.position, ← h.realPnL, add_right_inj] at hreal
  have hentry := mul_left_cancel₀ hclosed (mul_right_cancel₀ hvalue hreal)
  exact (div_left_inj' hsize).1 (sub_left_injective hentry)

/-- An element that the fill does not set anew can be told from its value after the fill. -/
theorem SameProfit.openVwap_eq_of_vwapAfter (h : SameProfit p q)
    (hopp : p.Against r → p.openVwap (oppositeIndex r.side) = q.openVwap (oppositeIndex r.side))
    {i : UInt64} (hi : ¬ p.Overwrites r i) (hv : p.vwapAfter r i = q.vwapAfter r i) :
    p.openVwap i = q.openVwap i := by
  obtain ⟨hnew, hagainst, hflips, -⟩ := h.tests_iff r
  rw [vwapAfter, vwapAfter] at hv
  by_cases hag : p.Against r
  · by_cases hio : i = oppositeIndex r.side
    · rw [hio, hopp hag]
    rw [if_pos hag, if_pos (hagainst.2 hag)] at hv
    by_cases hfl : p.Flips r
    · have hside : i ≠ sideToIndex r.side := fun hs => hi ⟨⟨hag, hfl⟩, Or.inl hs⟩
      rwa [if_pos hfl, if_pos (hflips.2 hfl), Function.update_of_ne hio,
        Function.update_of_ne hside, Function.update_of_ne hio, Function.update_of_ne hio,
        Function.update_of_ne hside, Function.update_of_ne hio] at hv
    · rwa [if_neg hfl, if_neg (mt hflips.1 hfl), Function.update_of_ne hio,
        Function.update_of_ne hio] at hv
  · rw [if_neg hag, if_neg (mt hagainst.1 hag)] at hv
    by_cases hside : i = sideToIndex r.side
    · rw [hside, Function.update_self, Function.update_self, add_left_inj] at hv
      rw [hside, hv]
    · rwa [Function.update_of_ne hside, Function.update_of_ne hside] at hv

/-- The call returns, and is not an empty fill. -/
def Proper : Call → Prop
  | .addFill r => sideToIndex r.side ≤ sideToIndex .max ∧ r.execQty ≠ 0
  | .updateBBO levels bbo => Quoted levels bbo

/-- **What a client sees after a call tells what the call has read.** -/
theorem SameProfit.reads_of_agree (h : SameProfit p q) {c : Call} (hc : Proper c)
    (hs : Agree Same (p.call c) (q.call c)) :
    p.volume = q.volume ∧ ∀ i, p.Reads i c → p.openVwap i = q.openVwap i := by
  cases c with
  | addFill r =>
    obtain ⟨hnew, -, -, -⟩ := h.tests_iff r
    rw [PositionInfo.call, PositionInfo.call, p.addFill_eq hc.1, q.addFill_eq hc.1] at hs
    obtain ⟨hprofit, hvolume⟩ := hs
    have hopp : p.Against r →
        p.openVwap (oppositeIndex r.side) = q.openVwap (oppositeIndex r.side) :=
      fun hag => h.openVwap_eq_of_real hag hc.2 hprofit.realPnL
    have hworth : worthAt (p.newPosition r) (p.vwapAfter r) (ofUInt64 r.price) =
        worthAt (q.newPosition r) (q.vwapAfter r) (ofUInt64 r.price) := hprofit.unrealPnL
    refine ⟨(UInt32.add_left_inj r.execQty).1 hvolume, ?_⟩
    rintro i ⟨-, ⟨hag, rfl⟩ | ⟨hopen, rfl, hset⟩⟩
    · exact hopp hag
    · rw [hnew] at hworth
      exact h.openVwap_eq_of_vwapAfter hopp hset (worthAt_inj hopen hworth)
  | updateBBO levels bbo =>
    obtain ⟨bid, ask, hquote⟩ := updateBBO_of_quoted (F := ℚ) hc
    change Agree Same (p.updateBBO levels bbo) (q.updateBBO levels bbo) at hs
    rw [hquote p, hquote q, ← h.position] at hs
    by_cases hflat : p.position = 0
    · rw [if_pos hflat, if_pos hflat] at hs
      exact ⟨hs.2, fun i hread => absurd hflat hread.2.1⟩
    · rw [if_neg hflat, if_neg hflat] at hs
      refine ⟨hs.2, ?_⟩
      rintro i ⟨-, -, rfl⟩
      have hworth := hs.1.unrealPnL
      rw [unrealPnL_markAtQuote p hflat, unrealPnL_markAtQuote q (h.position ▸ hflat),
        ← h.position] at hworth
      exact worthAt_inj hflat hworth

/-- Two runs show the same exactly as long as what they read is the same. -/
theorem same_along_iff (v w : UInt64 → ℚ) (m n : Qty) (calls : List Call)
    (hc : ∀ c ∈ calls, Proper c) :
    Run.Along NextBoth StaysSame (uninit v m, uninit w n) calls ↔
      Run.Along NextBoth ReadsSame (uninit v m, uninit w n) calls := by
  have hstep : ∀ (x : PositionInfo ℚ × PositionInfo ℚ) (c : Call), SameProfit x.1 x.2 →
      Proper c → (StaysSame x c ↔ ReadsSame x c) := fun _ _ hx hproper =>
    ⟨hx.reads_of_agree hproper, fun hread => hx.call_same hread.1 hread.2⟩
  exact Run.along_congr (fun x => SameProfit x.1 x.2) (fun _ c => Proper c) hstep
    (fun _ _ _ hx _ => hx.next) (SameProfit.uninit v w m n) (Run.along_of_forall_mem hc _)

end Exact

/-- Ten bought and four sold, whatever the element of the short side is at first. -/
theorem same_along_bought_sold :
    Run.Along NextBoth StaysSame
      (uninit (fun _ => (0 : ℚ)) 0, uninit (fun i => if i = 0 then 7 else 0) 0)
      [.addFill (Account.fillOf .buy 10 100), .addFill (Account.fillOf .sell 4 110)] := by
  refine same_along _ _ _ _ _ ⟨⟨rfl, ?_⟩, fun x hx => ⟨?_, fun _ _ => trivial⟩⟩
  · rintro i ⟨-, ⟨hag, -⟩ | ⟨-, rfl, -⟩⟩
    · exact absurd hag (by decide)
    · decide
  · have hl := (uninit (fun _ => (0 : ℚ)) 0).addFill_eq (r := Account.fillOf .buy 10 100)
      (by decide)
    have hr := (uninit (fun i => if i = 0 then (7 : ℚ) else 0) 0).addFill_eq
      (r := Account.fillOf .buy 10 100) (by decide)
    obtain ⟨x, y⟩ := x
    obtain rfl := Except.ok.inj (hl.symm.trans hx.1)
    obtain rfl := Except.ok.inj (hr.symm.trans hx.2)
    refine ⟨by decide, ?_⟩
    rintro i ⟨-, ⟨-, rfl⟩ | ⟨-, rfl, -⟩⟩
    · decide +kernel
    · decide +kernel

/-- The element of the long side decides what the first `BUY` is worth. -/
theorem not_same_along : ¬ ∀ (v w : UInt64 → ℚ) (m n : Qty) (calls : List Call),
    Run.Along NextBoth StaysSame (uninit v m, uninit w n) calls := by
  intro h
  have hsame := (h (fun _ => 0) (fun _ => 1) 0 0 [.addFill (Account.fillOf .buy 10 100)]).1
  have hl := (uninit (fun _ => (0 : ℚ)) 0).addFill_eq (r := Account.fillOf .buy 10 100) (by decide)
  have hr := (uninit (fun _ => (1 : ℚ)) 0).addFill_eq (r := Account.fillOf .buy 10 100) (by decide)
  rw [StaysSame, call, call, hl, hr] at hsame
  exact absurd hsame.1.unrealPnL (by decide +kernel)

end PositionInfo
end Trading
end TradingEcosystem
