import RoutineChain.Lib.Runs
import RoutineChain.Spec.Decode
import RoutineChain.Spec.Store

/-!
# The store on its RocksDB database (`rc-store`)

One byte map holds everything, under keys that the prefixes tell apart. `Spec/Store.lean` is
what the rest of the development works with: a typed map for each prefix.

RocksDB is a byte map whose iterators are in the order of the keys and whose batches are
atomic. Its I/O does not fail, so the getters can fail only in decoding.
-/

namespace RoutineChain

open Bincode Std

/-! ## Keys -/

/-- A byte string literal. -/
def byteString (s : String) : List UInt8 := s.toByteArray.data.toList

def prefixBlock : List UInt8 := byteString "blk/"
def prefixParticipant : List UInt8 := byteString "prt/"
def prefixSettlement : List UInt8 := byteString "stl/"
def prefixBalance : List UInt8 := byteString "bal/"
def prefixEscrow : List UInt8 := byteString "esc/"
def prefixDispute : List UInt8 := byteString "dsp/"
def prefixNonce : List UInt8 := byteString "nnc/"
def prefixAnchor : List UInt8 := byteString "anc/"
def keyLatestHeight : List UInt8 := byteString "meta/latest_height"

/-- All state prefixes, in the order in which the state root covers them. -/
def statePrefixes : List (List UInt8) :=
  [prefixParticipant, prefixSettlement, prefixBalance, prefixEscrow, prefixDispute, prefixNonce,
    prefixAnchor]

/-- `u64::to_be_bytes`. -/
def toBeBytes (n : UInt64) : List UInt8 := (leBytes 8 n.toNat).reverse

/-- `u64::from_be_bytes` of a value of eight bytes; any other value, and none, is read as 0. -/
def fromBeBytes : Option (List UInt8) → UInt64
  | some bytes => if bytes.length = 8 then .ofNat (leNat bytes.reverse) else 0
  | none => 0

def blockKey (height : UInt64) : List UInt8 := prefixBlock ++ toBeBytes height

/-! ## The database -/

/-- A RocksDB database. -/
structure Rocks where
  entries : ExtTreeMap (List UInt8) (List UInt8) compare

namespace Rocks

def empty : Rocks := ⟨∅⟩

variable (db : Rocks)

def get (key : List UInt8) : Option (List UInt8) := db.entries[key]?

def put (key value : List UInt8) : Rocks := ⟨db.entries.insert key value⟩

/-- `iterator(IteratorMode::From(start, Forward))`. -/
def iteratorFrom (start : List UInt8) : List (List UInt8 × List UInt8) :=
  db.entries.toList.dropWhile fun e => compare e.1 start = .lt

/-! ## Generic state helpers -/

def getState (α : Type) [Deserialize α] (keyPrefix : List UInt8) (key : Id) :
    Except DecodeError (Option α) :=
  match db.get (keyPrefix ++ serialize key) with
  | some bytes => some <$> fromBytes α bytes
  | none => .ok none

def setState {α : Type} [Serialize α] (keyPrefix : List UInt8) (key : Id) (value : α) : Rocks :=
  db.put (keyPrefix ++ serialize key) (serialize value)

/-! ## Block storage -/

def putBlock (block : Block) : Rocks :=
  (db.put (blockKey block.header.height) (serialize block)).put keyLatestHeight
    (toBeBytes block.header.height)

def getBlock (height : UInt64) : Except DecodeError (Option Block) :=
  match db.get (blockKey height) with
  | some bytes => some <$> fromBytes Block bytes
  | none => .ok none

def getLatestHeight : UInt64 := fromBeBytes (db.get keyLatestHeight)

/-! ## State storage -/

def getParticipant (id : Id) : Except DecodeError (Option Participant) :=
  db.getState Participant prefixParticipant id

def setParticipant (id : Id) (p : Participant) : Rocks := db.setState prefixParticipant id p

def getSettlement (recordId : Id) : Except DecodeError (Option SettlementRecord) :=
  db.getState SettlementRecord prefixSettlement recordId

def setSettlement (recordId : Id) (r : SettlementRecord) : Rocks :=
  db.setState prefixSettlement recordId r

def getBalance (owner : Id) : Except DecodeError RCWBalance := do
  match ← db.getState RCWBalance prefixBalance owner with
  | some b => return b
  | none => return { owner, earned := 0, purchased := 0 }

def setBalance (owner : Id) (b : RCWBalance) : Rocks := db.setState prefixBalance owner b

def getEscrow (escrowId : Id) : Except DecodeError (Option Escrow) :=
  db.getState Escrow prefixEscrow escrowId

def setEscrow (escrowId : Id) (e : Escrow) : Rocks := db.setState prefixEscrow escrowId e

def getDispute (disputeId : Id) : Except DecodeError (Option Dispute) :=
  db.getState Dispute prefixDispute disputeId

def setDispute (disputeId : Id) (d : Dispute) : Rocks := db.setState prefixDispute disputeId d

def getNonce (sender : Id) : UInt64 := fromBeBytes (db.get (prefixNonce ++ serialize sender))

def setNonce (sender : Id) (nonce : UInt64) : Rocks :=
  db.put (prefixNonce ++ serialize sender) (toBeBytes nonce)

def getAnchor (batchId : Id) : Except DecodeError (Option AnchorRecord) :=
  db.getState AnchorRecord prefixAnchor batchId

def setAnchor (batchId : Id) (a : AnchorRecord) : Rocks := db.setState prefixAnchor batchId a

/-! ## State root -/

/-- One turn of the loop of `compute_state_root`: the entries up to the first key without
the prefix. -/
def scan (keyPrefix : List UInt8) : List (List UInt8 × List UInt8) :=
  (db.iteratorFrom keyPrefix).takeWhile fun e => keyPrefix.isPrefixOf e.1

/-- The bytes that the hasher is fed. -/
def hashed : List UInt8 :=
  statePrefixes.flatMap fun keyPrefix => (db.scan keyPrefix).flatMap fun e => e.1 ++ e.2

def computeStateRoot (C : Crypto) : Hash := C.hash db.hashed

end Rocks

/-! ## Batches -/

/-- A write batch: the puts that were collected, in order. -/
structure StoreBatch where
  puts : List (List UInt8 × List UInt8)

namespace StoreBatch

def newBatch : StoreBatch := ⟨[]⟩

variable (batch : StoreBatch)

def put (key value : List UInt8) : StoreBatch := ⟨batch.puts ++ [(key, value)]⟩

def putState {α : Type} [Serialize α] (keyPrefix : List UInt8) (key : Id) (value : α) :
    StoreBatch :=
  batch.put (keyPrefix ++ serialize key) (serialize value)

def setParticipant (id : Id) (p : Participant) : StoreBatch :=
  batch.putState prefixParticipant id p

def setSettlement (recordId : Id) (r : SettlementRecord) : StoreBatch :=
  batch.putState prefixSettlement recordId r

def setBalance (owner : Id) (b : RCWBalance) : StoreBatch := batch.putState prefixBalance owner b

def setEscrow (escrowId : Id) (e : Escrow) : StoreBatch := batch.putState prefixEscrow escrowId e

def setDispute (disputeId : Id) (d : Dispute) : StoreBatch :=
  batch.putState prefixDispute disputeId d

def setNonce (sender : Id) (nonce : UInt64) : StoreBatch :=
  batch.put (prefixNonce ++ serialize sender) (toBeBytes nonce)

end StoreBatch

/-- Commit a batch atomically. -/
def Rocks.commitBatch (db : Rocks) (batch : StoreBatch) : Rocks :=
  batch.puts.foldl (fun db e => db.put e.1 e.2) db

/-! ## Writes -/

/-- A call of a direct setter. -/
inductive Write where
  | block (b : Block)
  | participant (id : Id) (p : Participant)
  | settlement (recordId : Id) (r : SettlementRecord)
  | balance (owner : Id) (b : RCWBalance)
  | escrow (escrowId : Id) (e : Escrow)
  | dispute (disputeId : Id) (d : Dispute)
  | nonce (sender : Id) (n : UInt64)
  | anchor (batchId : Id) (a : AnchorRecord)

/-- A call of a batched setter. A batch takes neither blocks nor anchors. -/
inductive BatchedSet where
  | participant (id : Id) (p : Participant)
  | settlement (recordId : Id) (r : SettlementRecord)
  | balance (owner : Id) (b : RCWBalance)
  | escrow (escrowId : Id) (e : Escrow)
  | dispute (disputeId : Id) (d : Dispute)
  | nonce (sender : Id) (n : UInt64)

/-- A direct write, or a batch that is filled and committed. -/
inductive StoreOp where
  | write (w : Write)
  | commitBatch (sets : List BatchedSet)

def Rocks.write (db : Rocks) : Write → Rocks
  | .block b => db.putBlock b
  | .participant id p => db.setParticipant id p
  | .settlement recordId r => db.setSettlement recordId r
  | .balance owner b => db.setBalance owner b
  | .escrow escrowId e => db.setEscrow escrowId e
  | .dispute disputeId d => db.setDispute disputeId d
  | .nonce sender n => db.setNonce sender n
  | .anchor batchId a => db.setAnchor batchId a

def StoreBatch.set (batch : StoreBatch) : BatchedSet → StoreBatch
  | .participant id p => batch.setParticipant id p
  | .settlement recordId r => batch.setSettlement recordId r
  | .balance owner b => batch.setBalance owner b
  | .escrow escrowId e => batch.setEscrow escrowId e
  | .dispute disputeId d => batch.setDispute disputeId d
  | .nonce sender n => batch.setNonce sender n

def Rocks.apply (db : Rocks) : StoreOp → Rocks
  | .write w => db.write w
  | .commitBatch sets => db.commitBatch (sets.foldl StoreBatch.set .newBatch)

/-- The direct write that sets the same. -/
def BatchedSet.direct : BatchedSet → Write
  | .participant id p => .participant id p
  | .settlement recordId r => .settlement recordId r
  | .balance owner b => .balance owner b
  | .escrow escrowId e => .escrow escrowId e
  | .dispute disputeId d => .dispute disputeId d
  | .nonce sender n => .nonce sender n

/-- What an operation writes. -/
def StoreOp.writes : StoreOp → List Write
  | .write w => [w]
  | .commitBatch sets => sets.map BatchedSet.direct

/-- The strings and vectors that are written have lengths that a `u64` holds. -/
def Write.Fits : Write → Prop
  | .block b => b.Fits
  | .participant _ p => p.Fits
  | .dispute _ d => d.Fits
  | _ => True

def StoreOp.Fits (op : StoreOp) : Prop := ∀ w ∈ op.writes, w.Fits

/-- The write on the typed maps. -/
def Store.write (s : Store) : Write → Store
  | .block b => s.putBlock b
  | .participant id p => { s with records := s.records.putParticipant id p }
  | .settlement recordId r => { s with records := s.records.putSettlement recordId r }
  | .balance owner b => { s with records := s.records.putBalance owner b }
  | .escrow escrowId e => { s with records := s.records.putEscrow escrowId e }
  | .dispute disputeId d => { s with records := s.records.putDispute disputeId d }
  | .nonce sender n => s.setNonce sender n
  | .anchor batchId a => { s with records := s.records.putAnchor batchId a }

/-- The typed maps after some operations. -/
def Store.ofOps (ops : List StoreOp) : Store :=
  Runs.run Store.write .empty (ops.flatMap StoreOp.writes)

end RoutineChain
