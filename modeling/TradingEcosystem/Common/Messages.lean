import TradingEcosystem.Common.Types

/-!
# The messages

The structures that travel between the components: client requests and client responses
(`exchange/order_server/client_request.h`, `client_response.h`) and market updates
(`exchange/market_data/market_update.h`), each with the numbered form that goes over a socket.
The default of every field is the one of the source.
-/

set_option autoImplicit false

namespace TradingEcosystem

/-! ## Client requests -/

/-- `enum class ClientRequestType : uint8_t`. -/
inductive ClientRequestType where
  | invalid
  | new
  | cancel
  | unnamed (code : UInt8) (h : 3 ≤ code)
  deriving DecidableEq

/-- `clientRequestTypeToString`. -/
def clientRequestTypeToString : ClientRequestType → String
  | .invalid => "INVALID"
  | .new => "NEW"
  | .cancel => "CANCEL"
  | .unnamed _ _ => "UNKNOWN"

/-- `MEClientRequest`. -/
structure MEClientRequest where
  requestType : ClientRequestType := .invalid
  clientId : ClientId := clientIdInvalid
  tickerId : TickerId := tickerIdInvalid
  orderId : OrderId := orderIdInvalid
  price : Price := priceInvalid
  qty : Qty := qtyInvalid
  side : Side := .invalid
  deriving DecidableEq

/-- `OMClientRequest`. -/
structure OMClientRequest where
  seqNum : UInt64 := 0
  meClientRequest : MEClientRequest
  deriving DecidableEq

/-! ## Client responses -/

/-- `enum class ClientResponseType : uint8_t`. -/
inductive ClientResponseType where
  | invalid
  | accepted
  | canceled
  | filled
  | partialFill
  | cancelRejected
  | unnamed (code : UInt8) (h : 6 ≤ code)
  deriving DecidableEq

/-- `MEClientResponse`. -/
structure MEClientResponse where
  type : ClientResponseType := .invalid
  clientId : ClientId := clientIdInvalid
  tickerId : TickerId := tickerIdInvalid
  clientOrderId : OrderId := orderIdInvalid
  markerOrderId : OrderId := orderIdInvalid
  side : Side := .invalid
  price : Price := priceInvalid
  execQty : Qty := qtyInvalid
  leftQty : Qty := qtyInvalid
  deriving DecidableEq

/-- `OMClientResponse`. -/
structure OMClientResponse where
  seqNum : UInt64 := 0
  meClientResponse : MEClientResponse
  deriving DecidableEq

/-! ## Market updates -/

/-- `enum class MarketUpdateType : uint8_t`. -/
inductive MarketUpdateType where
  | invalid
  | add
  | modify
  | cancel
  | trade
  | clear
  | snapshotStart
  | snapshotEnd
  | unnamed (code : UInt8) (h : 8 ≤ code)
  deriving DecidableEq

/-- `MEMarketUpdate`. -/
structure MEMarketUpdate where
  type : MarketUpdateType := .invalid
  orderId : OrderId := orderIdInvalid
  tickerId : TickerId := tickerIdInvalid
  side : Side := .invalid
  price : Price := priceInvalid
  qty : Qty := qtyInvalid
  priority : Priority := priorityInvalid
  deriving DecidableEq

/-- `marketUpdateTypeToString`, which has no text for three of the types. -/
def marketUpdateTypeToString : MarketUpdateType → String
  | .add => "ADD"
  | .modify => "MODIFY"
  | .cancel => "CANCEL"
  | .trade => "TRADE"
  | .invalid => "INVALID"
  | _ => "UNKNOWN"

/-- `MEMarketUpdate::toString`. -/
def MEMarketUpdate.toString (u : MEMarketUpdate) : String :=
  "MEMarketUpdate [type:" ++ marketUpdateTypeToString u.type ++ " oid:" ++
    orderIdToString u.orderId ++ " ticker:" ++ tickerIdToString u.tickerId ++ " side:" ++
    sideToString u.side ++ " price:" ++ priceToString u.price ++ " qty:" ++ qtyToString u.qty ++
    " priority:" ++ priorityToString u.priority ++ "]"

/-- `MDPMarketUpdate`. -/
structure MDPMarketUpdate where
  seqNum : UInt64 := 0
  meMarketUpdate : MEMarketUpdate
  deriving DecidableEq

end TradingEcosystem
