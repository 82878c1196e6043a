import RoutineChain.Spec.Rpc

/-!
# Reading over RPC (`rc-rpc`)

The handlers of the `GET` routes, each a function of the store at the moment of the request, and
`respond`, the router. What a handler answers besides a response is a status code. Errors of the
database itself are left out, and with them the code `INTERNAL_SERVER_ERROR`.
-/

namespace RoutineChain.Rpc

/-- The status codes that a query is refused with. -/
inductive QueryStatus where
  | badRequest | notFound
  deriving DecidableEq, Repr

/-- Standard API response. -/
structure ApiResponse (α : Type) where
  result : Bool
  message : String
  data : Option α

def ApiResponse.ok {α : Type} (data : α) : ApiResponse α :=
  { result := true, message := "ok", data := some data }

def ApiResponse.map {α β : Type} (f : α → β) (r : ApiResponse α) : ApiResponse β :=
  { r with data := r.data.map f }

/-- Trust score response. -/
structure TrustScoreResponse where
  participantId : String
  score : Float
  totalTx : UInt64
  successTx : UInt64
  successRate : Float
  disputeCount : UInt64
  disputeRate : Float
  avgRating : Float
  totalVolume : UInt64
  registeredAt : Int64
  lastActivityAt : Int64

/-- Balance response. -/
structure BalanceResponse where
  owner : String
  earned : UInt64
  purchased : UInt64
  total : UInt64
  deriving DecidableEq, Repr

/-- Chain status response. -/
structure StatusResponse where
  chain : String
  latestHeight : UInt64
  version : String
  deriving DecidableEq, Repr

/-- The text of the error is dropped by every caller. -/
def hexToId (C : Crypto) (hex : String) : Option Id := (hexToBytes C 32 hex).toOption

/-! ## Handlers -/

def getStatus (s : Store) : ApiResponse StatusResponse :=
  .ok { chain := "routinechain", latestHeight := s.getLatestHeight, version := "0.1.0" }

def getBlock (s : Store) (height : UInt64) : Except QueryStatus (ApiResponse Block) :=
  match s.getBlock height with
  | some block => .ok (.ok block)
  | none => .error .notFound

/-- The handlers that read under an id, which comes as hex. -/
def atId {α : Type} (C : Crypto) (hex : String)
    (read : Id → Except QueryStatus (ApiResponse α)) : Except QueryStatus (ApiResponse α) :=
  match hexToId C hex with
  | some id => read id
  | none => .error .badRequest

/-- The handlers that show a record as it is stored. -/
def getRecord {α : Type} (C : Crypto) (table : Table α) (hex : String) :
    Except QueryStatus (ApiResponse α) :=
  atId C hex fun id => match table[id]? with
    | some a => .ok (.ok a)
    | none => .error .notFound

def getParticipant (C : Crypto) (s : Store) (hex : String) :
    Except QueryStatus (ApiResponse Participant) :=
  getRecord C s.records.participants hex

/-- The response about the participant `p`. -/
def trustScoreOf (hex : String) (p : Participant) : TrustScoreResponse where
  participantId := hex
  score := (computeTrustScore p).toFloat / 100
  totalTx := p.totalTx
  successTx := p.successTx
  successRate := if p.totalTx > 0 then p.successTx.toFloat / p.totalTx.toFloat * 100 else 0
  disputeCount := p.disputeCount
  disputeRate := if p.totalTx > 0 then p.disputeCount.toFloat / p.totalTx.toFloat * 100 else 0
  avgRating :=
    if p.ratingCount > 0 then p.ratingSum.toFloat / p.ratingCount.toFloat / 100 else 0
  totalVolume := p.totalVolume
  registeredAt := p.registeredAt
  lastActivityAt := p.lastActivityAt

def getTrustScore (C : Crypto) (s : Store) (hex : String) :
    Except QueryStatus (ApiResponse TrustScoreResponse) :=
  atId C hex fun id => match s.records.participants[id]? with
    | some p => .ok (.ok (trustScoreOf hex p))
    | none => .error .notFound

def getSettlement (C : Crypto) (s : Store) (hex : String) :
    Except QueryStatus (ApiResponse SettlementRecord) :=
  getRecord C s.records.settlements hex

def getEscrow (C : Crypto) (s : Store) (hex : String) :
    Except QueryStatus (ApiResponse Escrow) :=
  getRecord C s.records.escrows hex

def getDispute (C : Crypto) (s : Store) (hex : String) :
    Except QueryStatus (ApiResponse Dispute) :=
  getRecord C s.records.disputes hex

def getAnchor (C : Crypto) (s : Store) (hex : String) :
    Except QueryStatus (ApiResponse AnchorRecord) :=
  getRecord C s.records.anchors hex

/-- A balance that was never written is shown as zero. -/
def getBalance (C : Crypto) (s : Store) (hex : String) :
    Except QueryStatus (ApiResponse BalanceResponse) :=
  atId C hex fun id =>
    let bal := s.records.balance id
    .ok (.ok { owner := hex, earned := bal.earned, purchased := bal.purchased, total := bal.total })

/-! ## Routes -/

/-- The `GET` routes with their paths. -/
inductive Query where
  | status
  | block (height : UInt64)
  | participant (id : String)
  | trust (id : String)
  | settlement (id : String)
  | escrow (id : String)
  | dispute (id : String)
  | anchor (id : String)
  | balance (id : String)
  deriving DecidableEq, Repr

inductive Answer where
  | status (r : StatusResponse)
  | block (b : Block)
  | participant (p : Participant)
  | trust (r : TrustScoreResponse)
  | settlement (s : SettlementRecord)
  | escrow (e : Escrow)
  | dispute (d : Dispute)
  | anchor (a : AnchorRecord)
  | balance (r : BalanceResponse)

/-- The router. -/
def respond (C : Crypto) (s : Store) : Query → Except QueryStatus (ApiResponse Answer)
  | .status => .ok ((getStatus s).map .status)
  | .block height => (getBlock s height).map (.map .block)
  | .participant id => (getParticipant C s id).map (.map .participant)
  | .trust id => (getTrustScore C s id).map (.map .trust)
  | .settlement id => (getSettlement C s id).map (.map .settlement)
  | .escrow id => (getEscrow C s id).map (.map .escrow)
  | .dispute id => (getDispute C s id).map (.map .dispute)
  | .anchor id => (getAnchor C s id).map (.map .anchor)
  | .balance id => (getBalance C s id).map (.map .balance)

end RoutineChain.Rpc
