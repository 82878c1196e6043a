import Mathlib.Tactic.Simps.Basic
import RoutineChain.Spec.Crypto
import Std.Data.ExtTreeMap
import Std.Data.ExtTreeMap.Lemmas

/-!
# The store (`rc-store`)

`Store` keeps blocks and state in one RocksDB key space, a logical map for each key
prefix. Here each prefix is a finite map ordered by key: an iteration from the prefix
meets its entries in that order, and two maps with the same entries are equal.

* `Records`: the six maps that the modules of the state machine read and write.
* `Store`: the records with the nonces, the blocks and the latest height.
* `stateStream`: the bytes that `compute_state_root` feeds to the hasher.
-/

namespace RoutineChain

open Bincode Std

instance : TransOrd Id := inferInstance

/-- The entries under one key prefix, by their 32-byte suffix. -/
abbrev Table (V : Type) := ExtTreeMap Id V compare

/-- The records that executing a payload can read and write. -/
structure Records where
  participants : Table Participant
  settlements : Table SettlementRecord
  balances : Table RCWBalance
  escrows : Table Escrow
  disputes : Table Dispute
  anchors : Table AnchorRecord

/-- The store of a node. -/
structure Store where
  records : Records
  nonces : Table UInt64
  blocks : ExtTreeMap UInt64 Block compare
  /-- The entry `meta/latest_height`. -/
  latestHeight : Option UInt64

def Records.empty : Records := ⟨∅, ∅, ∅, ∅, ∅, ∅⟩

def Store.empty : Store := ⟨.empty, ∅, ∅, none⟩

/-! ## Records -/

@[simps] def Records.putParticipant (r : Records) (id : Id) (p : Participant) : Records :=
  { r with participants := r.participants.insert id p }

@[simps] def Records.putSettlement (r : Records) (id : Id) (s : SettlementRecord) : Records :=
  { r with settlements := r.settlements.insert id s }

@[simps] def Records.putBalance (r : Records) (owner : Id) (b : RCWBalance) : Records :=
  { r with balances := r.balances.insert owner b }

@[simps] def Records.putEscrow (r : Records) (id : Id) (e : Escrow) : Records :=
  { r with escrows := r.escrows.insert id e }

@[simps] def Records.putDispute (r : Records) (id : Id) (d : Dispute) : Records :=
  { r with disputes := r.disputes.insert id d }

@[simps] def Records.putAnchor (r : Records) (id : Id) (a : AnchorRecord) : Records :=
  { r with anchors := r.anchors.insert id a }

/-- A balance that was never written is zero. -/
def Records.balance (r : Records) (owner : Id) : RCWBalance :=
  r.balances[owner]?.getD { owner, earned := 0, purchased := 0 }

/-! ## Blocks -/

def Store.putBlock (s : Store) (b : Block) : Store :=
  { s with blocks := s.blocks.insert b.header.height b, latestHeight := some b.header.height }

def Store.getBlock (s : Store) (height : UInt64) : Option Block := s.blocks[height]?

def Store.getLatestHeight (s : Store) : UInt64 := s.latestHeight.getD 0

@[simp] theorem Store.putBlock_records (s : Store) (b : Block) :
    (s.putBlock b).records = s.records := rfl

@[simp] theorem Store.putBlock_nonces (s : Store) (b : Block) :
    (s.putBlock b).nonces = s.nonces := rfl

@[simp] theorem Store.putBlock_latest (s : Store) (b : Block) :
    (s.putBlock b).getLatestHeight = b.header.height := rfl

theorem Store.getBlock_putBlock (s : Store) (b : Block) (h : UInt64) :
    (s.putBlock b).getBlock h = if b.header.height = h then some b else s.getBlock h := by
  simp [getBlock, putBlock, ExtTreeMap.getElem?_insert]

@[simp] theorem Store.getBlock_putBlock_self (s : Store) (b : Block) :
    (s.putBlock b).getBlock b.header.height = some b := by
  simp [getBlock_putBlock]

/-! ## Nonces -/

def Store.getNonce (s : Store) (sender : Id) : UInt64 := s.nonces[sender]?.getD 0

def Store.setNonce (s : Store) (sender : Id) (nonce : UInt64) : Store :=
  { s with nonces := s.nonces.insert sender nonce }

theorem Store.getNonce_setNonce (s : Store) (a b : Id) (n : UInt64) :
    (s.setNonce a n).getNonce b = if a = b then n else s.getNonce b := by
  simp only [getNonce, setNonce, ExtTreeMap.getElem?_insert, Std.compare_eq_iff_eq]
  split <;> simp

/-! ## State root -/

/-- What one prefix scan feeds to the hasher: each key with its prefix, and its value. -/
def scanPrefix {V : Type} (keyPrefix : String) (value : V → List UInt8) (t : Table V) :
    List UInt8 :=
  t.toList.flatMap fun e => keyPrefix.toByteArray.data.toList ++ serialize e.1 ++ value e.2

/-- A nonce is stored raw, as eight big-endian bytes. -/
def nonceBytes (n : UInt64) : List UInt8 := (leBytes 8 n.toNat).reverse

/-- **The bytes that `compute_state_root` hashes**: the prefixes in the order of
`STATE_PREFIXES`, each scanned in key order. -/
def stateStream (s : Store) : List UInt8 :=
  scanPrefix "prt/" serialize s.records.participants ++
  scanPrefix "stl/" serialize s.records.settlements ++
  scanPrefix "bal/" serialize s.records.balances ++
  scanPrefix "esc/" serialize s.records.escrows ++
  scanPrefix "dsp/" serialize s.records.disputes ++
  scanPrefix "nnc/" nonceBytes s.nonces ++
  scanPrefix "anc/" serialize s.records.anchors

def computeStateRoot (C : Crypto) (s : Store) : Hash := C.hash (stateStream s)

/-- Two stores have the same state: all that the state root covers, so not the blocks. -/
def Store.SameState (s s' : Store) : Prop := s.records = s'.records ∧ s.nonces = s'.nonces

theorem Store.SameState.root {C : Crypto} {s s' : Store} (h : s.SameState s') :
    computeStateRoot C s = computeStateRoot C s' := by
  unfold computeStateRoot stateStream
  rw [h.1, h.2]

end RoutineChain
