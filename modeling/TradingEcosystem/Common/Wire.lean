import TradingEcosystem.Common.Messages
import TradingEcosystem.Lib.Codec

/-!
# The messages as bytes

All message structures are declared under `#pragma pack(push,1)`, so a message is its fields one
after the other, without padding, in the byte order of the machine (little-endian).  An enumeration
is one byte, and every byte is a value of it.
-/

set_option autoImplicit false

namespace TradingEcosystem

open Codec

/-! ## Enumerations -/

/-- The side a byte stands for. -/
def Side.ofByte (code : UInt8) : Side :=
  if h : 2 < code ∧ code < 255 then .unnamed code h
  else if code = 0 then .invalid else if code = 1 then .buy else if code = 2 then .max else .sell

theorem Side.ofByte_toByte (s : Side) : Side.ofByte s.toByte = s := by
  cases s with
  | unnamed code h => rw [toByte, ofByte, dif_pos h]
  | _ => rfl

def ClientRequestType.toByte : ClientRequestType → UInt8
  | .invalid => 0
  | .new => 1
  | .cancel => 2
  | .unnamed code _ => code

def ClientRequestType.ofByte (code : UInt8) : ClientRequestType :=
  if h : 3 ≤ code then .unnamed code h
  else if code = 0 then .invalid else if code = 1 then .new else .cancel

theorem ClientRequestType.ofByte_toByte (t : ClientRequestType) : ofByte t.toByte = t := by
  cases t with
  | unnamed code h => rw [toByte, ofByte, dif_pos h]
  | _ => rfl

def ClientResponseType.toByte : ClientResponseType → UInt8
  | .invalid => 0
  | .accepted => 1
  | .canceled => 2
  | .filled => 3
  | .partialFill => 4
  | .cancelRejected => 5
  | .unnamed code _ => code

def ClientResponseType.ofByte (code : UInt8) : ClientResponseType :=
  if h : 6 ≤ code then .unnamed code h
  else if code = 0 then .invalid else if code = 1 then .accepted else if code = 2 then .canceled
  else if code = 3 then .filled else if code = 4 then .partialFill else .cancelRejected

theorem ClientResponseType.ofByte_toByte (t : ClientResponseType) : ofByte t.toByte = t := by
  cases t with
  | unnamed code h => rw [toByte, ofByte, dif_pos h]
  | _ => rfl

def MarketUpdateType.toByte : MarketUpdateType → UInt8
  | .invalid => 0
  | .add => 1
  | .modify => 2
  | .cancel => 3
  | .trade => 4
  | .clear => 5
  | .snapshotStart => 6
  | .snapshotEnd => 7
  | .unnamed code _ => code

def MarketUpdateType.ofByte (code : UInt8) : MarketUpdateType :=
  if h : 8 ≤ code then .unnamed code h
  else if code = 0 then .invalid else if code = 1 then .add else if code = 2 then .modify
  else if code = 3 then .cancel else if code = 4 then .trade else if code = 5 then .clear
  else if code = 6 then .snapshotStart else .snapshotEnd

theorem MarketUpdateType.ofByte_toByte (t : MarketUpdateType) : ofByte t.toByte = t := by
  cases t with
  | unnamed code h => rw [toByte, ofByte, dif_pos h]
  | _ => rfl

def sideCodec : Codec Side := u8.map Side.toByte Side.ofByte Side.ofByte_toByte

/-! ## Numbered messages -/

/-- Messages with consecutive numbers, from `n` on. -/
def numberedFrom {α : Type} : UInt64 → List α → List (UInt64 × α)
  | _, [] => []
  | n, a :: rest => (n, a) :: numberedFrom (n + 1) rest

theorem length_numberedFrom {α : Type} (n : UInt64) (l : List α) :
    (numberedFrom n l).length = l.length := by
  induction l generalizing n with
  | nil => rfl
  | cons a rest ih => rw [numberedFrom, List.length_cons, ih, List.length_cons]

theorem numberedFrom_append {α : Type} (n : UInt64) (l₁ l₂ : List α) :
    numberedFrom n (l₁ ++ l₂) =
      numberedFrom n l₁ ++ numberedFrom (n + .ofNat l₁.length) l₂ := by
  induction l₁ generalizing n with
  | nil => simp [numberedFrom]
  | cons a rest ih =>
    have hnext : n + 1 + .ofNat rest.length = n + .ofNat (rest.length + 1) := by
      rw [UInt64.ofNat_add, UInt64.add_assoc, UInt64.add_comm 1]
      rfl
    rw [List.cons_append, numberedFrom, numberedFrom, ih, List.length_cons, hnext]
    rfl

/-- The numbers count on from the first, as long as they do not wrap. -/
theorem toNat_of_mem_numberedFrom {α : Type} {n : UInt64} {l : List α}
    (h : n.toNat + l.length ≤ UInt64.size) {e : UInt64 × α} (he : e ∈ numberedFrom n l) :
    n.toNat ≤ e.1.toNat ∧ e.1.toNat < n.toNat + l.length := by
  induction l generalizing n with
  | nil => exact absurd he List.not_mem_nil
  | cons a rest ih =>
    rw [List.length_cons] at h ⊢
    rcases List.mem_cons.1 he with rfl | he
    · dsimp only
      omega
    · have hpos : 0 < rest.length := by
        rcases rest with _ | ⟨b, rest⟩
        · exact absurd he List.not_mem_nil
        · exact Nat.succ_pos _
      have hnext : (n + 1).toNat = n.toNat + 1 := by
        rw [UInt64.toNat_add]
        exact Nat.mod_eq_of_lt (show n.toNat + 1 < UInt64.size by omega)
      have hrest := ih (by rw [hnext]; omega) he
      rw [hnext] at hrest
      omega

/-! ## Structures -/

/-- `MEClientRequest`, 30 bytes. -/
def meClientRequestCodec : Codec MEClientRequest :=
  ((u8.map _ _ ClientRequestType.ofByte_toByte).prod <| u32.prod <| u32.prod <| u64.prod <|
      u64.prod <| u32.prod sideCodec).map
    (fun r => (r.requestType, r.clientId, r.tickerId, r.orderId, r.price, r.qty, r.side))
    (fun (t, c, k, o, p, q, s) => ⟨t, c, k, o, p, q, s⟩) fun _ => rfl

/-- `OMClientRequest`, 38 bytes. -/
def omClientRequestCodec : Codec OMClientRequest :=
  (u64.prod meClientRequestCodec).map (fun r => (r.seqNum, r.meClientRequest))
    (fun (n, r) => ⟨n, r⟩) fun _ => rfl

/-- `MEClientResponse`, 42 bytes. -/
def meClientResponseCodec : Codec MEClientResponse :=
  ((u8.map _ _ ClientResponseType.ofByte_toByte).prod <| u32.prod <| u32.prod <| u64.prod <|
      u64.prod <| sideCodec.prod <| u64.prod <| u32.prod u32).map
    (fun r => (r.type, r.clientId, r.tickerId, r.clientOrderId, r.markerOrderId, r.side, r.price,
      r.execQty, r.leftQty))
    (fun (t, c, k, o, m, s, p, e, l) => ⟨t, c, k, o, m, s, p, e, l⟩) fun _ => rfl

/-- `OMClientResponse`, 50 bytes. -/
def omClientResponseCodec : Codec OMClientResponse :=
  (u64.prod meClientResponseCodec).map (fun r => (r.seqNum, r.meClientResponse))
    (fun (n, r) => ⟨n, r⟩) fun _ => rfl

/-- `MEMarketUpdate`, 34 bytes. -/
def meMarketUpdateCodec : Codec MEMarketUpdate :=
  ((u8.map _ _ MarketUpdateType.ofByte_toByte).prod <| u64.prod <| u32.prod <| sideCodec.prod <|
      u64.prod <| u32.prod u64).map
    (fun u => (u.type, u.orderId, u.tickerId, u.side, u.price, u.qty, u.priority))
    (fun (t, o, k, s, p, q, r) => ⟨t, o, k, s, p, q, r⟩) fun _ => rfl

/-- `MDPMarketUpdate`, 42 bytes. -/
def mdpMarketUpdateCodec : Codec MDPMarketUpdate :=
  (u64.prod meMarketUpdateCodec).map (fun u => (u.seqNum, u.meMarketUpdate))
    (fun (n, u) => ⟨n, u⟩) fun _ => rfl

-- `sizeof` of the numbered structures
example : omClientRequestCodec.size = 38 ∧ omClientResponseCodec.size = 50 ∧
    mdpMarketUpdateCodec.size = 42 := ⟨rfl, rfl, rfl⟩

end TradingEcosystem
