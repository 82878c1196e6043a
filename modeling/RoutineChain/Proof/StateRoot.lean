import RoutineChain.Lib.PrefixScan
import RoutineChain.Proof.Refinement

/-!
# What the state root commits to

`compute_state_root` hashes keys and values of seven scans, one after the other, without
separators or lengths.

* `hashed_eq`: on the database of typed maps this is `stateStream`, so each scan meets all
  the entries of its kind, and no others.
* `stateStream_iff`: each entry says where it ends, so the stream determines the maps.
* `root_commits`: so equal roots mean equal states, unless two streams collide.
-/

namespace RoutineChain

open Bincode Std PrefixScan

/-! ## The scans -/

/-- The entries of a database come in the order of their keys. -/
theorem Rocks.sorted (db : Rocks) :
    db.entries.toList.Pairwise fun e e' => compare e.1 e'.1 = .lt :=
  ExtTreeMap.ordered_keys_toList

theorem Rocks.mem_scan {db : Rocks} {keyPrefix : List UInt8} {e : List UInt8 × List UInt8} :
    e ∈ db.scan keyPrefix ↔ db.get e.1 = some e.2 ∧ keyPrefix <+: e.1 := by
  rw [scan, iteratorFrom, scan_eq_filter keyPrefix db.sorted, List.mem_filter,
    ExtTreeMap.mem_toList_iff_getElem?_eq_some, List.isPrefixOf_iff_prefix]
  rfl

theorem Rocks.scan_sorted (db : Rocks) (keyPrefix : List UInt8) :
    (db.scan keyPrefix).Pairwise fun e e' => compare e.1 e'.1 = .lt := by
  rw [scan, iteratorFrom, scan_eq_filter keyPrefix db.sorted]
  exact db.sorted.filter _

/-- The slots with a state prefix are those of its kind. -/
theorem Slot.of_prefix {slot : Slot} {kind : StateKind} (h : kind.keyPrefix <+: slot.key) :
    ∃ id, slot = .state kind id := by
  have htag : kind.keyPrefix = slot.tag := by
    have hlen : kind.keyPrefix.length = slot.tag.length :=
      kind.length_keyPrefix.trans slot.length_tag.symm
    have hpre : kind.keyPrefix <+: slot.tag :=
      List.prefix_of_prefix_length_le h (List.prefix_append _ _) hlen.le
    exact hpre.eq_of_length hlen
  cases slot with
  | block => exact absurd htag (keyPrefix_ne kind).1
  | latestHeight => exact absurd htag (keyPrefix_ne kind).2
  | state kind' id => exact ⟨id, by rw [StateKind.keyPrefix_injective htag]⟩

/-- One entry of a state map, as the scan meets it. -/
def scanEntry {V : Type} (kind : StateKind) (value : V → List UInt8) (e : Id × V) :
    List UInt8 × List UInt8 :=
  (kind.keyPrefix ++ serialize e.1, value e.2)

/-- **A scan meets the entries of one map, in the order of their ids.** -/
theorem Refines.scan_eq {db : Rocks} {s : Store} (h : Refines db s) {V : Type} {t : Table V}
    {kind : StateKind} {value : V → List UInt8}
    (ht : ∀ id, s.entry (.state kind id) = t[id]?.map value) :
    db.scan kind.keyPrefix = t.toList.map (scanEntry kind value) := by
  have hsorted : (t.toList.map (scanEntry kind value)).Pairwise
      fun e e' => compare e.1 e'.1 = .lt := by
    rw [List.pairwise_map]
    refine ExtTreeMap.ordered_keys_toList.imp ?_
    intro e e' hlt
    have hself : compare kind.keyPrefix kind.keyPrefix = .eq := ReflOrd.compare_self
    rw [scanEntry, scanEntry, compare_append rfl, hself, compare_serialize rfl]
    exact hlt
  refine eq_of_mem_iff (db.scan_sorted _) hsorted ?_
  intro e
  rw [Rocks.mem_scan, List.mem_map]
  constructor
  · rintro ⟨hget, hpre⟩
    obtain ⟨slot, hslot⟩ := h.keys e.1 (by rw [hget]; rfl)
    rw [← hslot] at hpre
    obtain ⟨id, rfl⟩ := Slot.of_prefix hpre
    rw [← hslot, h.get_key, ht, Option.map_eq_some_iff] at hget
    obtain ⟨v, hv, hvalue⟩ := hget
    refine ⟨(id, v), ExtTreeMap.mem_toList_iff_getElem?_eq_some.2 hv, ?_⟩
    exact Prod.ext hslot hvalue
  · rintro ⟨⟨id, v⟩, hmem, rfl⟩
    refine ⟨?_, List.prefix_append _ _⟩
    have hv : t[id]? = some v := ExtTreeMap.mem_toList_iff_getElem?_eq_some.1 hmem
    have hget := h.get_key (.state kind id)
    rw [ht, hv] at hget
    exact hget

/-- What one scan feeds to the hasher. -/
theorem Refines.flatMap_scan {db : Rocks} {s : Store} (h : Refines db s) {V : Type} {t : Table V}
    (kind : StateKind) {name : String} (hname : kind.keyPrefix = byteString name)
    {value : V → List UInt8} (ht : ∀ id, s.entry (.state kind id) = t[id]?.map value) :
    (db.scan kind.keyPrefix).flatMap (fun e => e.1 ++ e.2) = scanPrefix name value t := by
  rw [h.scan_eq ht, List.flatMap_map, scanPrefix]
  simp only [scanEntry, hname, byteString]

/-- **The hasher is fed the stream of the typed maps.** -/
theorem Refines.hashed_eq {db : Rocks} {s : Store} (h : Refines db s) :
    db.hashed = stateStream s := by
  have hparticipant : (db.scan prefixParticipant).flatMap (fun e => e.1 ++ e.2) =
      scanPrefix "prt/" serialize s.records.participants :=
    h.flatMap_scan .participant rfl fun _ => rfl
  have hsettlement : (db.scan prefixSettlement).flatMap (fun e => e.1 ++ e.2) =
      scanPrefix "stl/" serialize s.records.settlements :=
    h.flatMap_scan .settlement rfl fun _ => rfl
  have hbalance : (db.scan prefixBalance).flatMap (fun e => e.1 ++ e.2) =
      scanPrefix "bal/" serialize s.records.balances :=
    h.flatMap_scan .balance rfl fun _ => rfl
  have hescrow : (db.scan prefixEscrow).flatMap (fun e => e.1 ++ e.2) =
      scanPrefix "esc/" serialize s.records.escrows :=
    h.flatMap_scan .escrow rfl fun _ => rfl
  have hdispute : (db.scan prefixDispute).flatMap (fun e => e.1 ++ e.2) =
      scanPrefix "dsp/" serialize s.records.disputes :=
    h.flatMap_scan .dispute rfl fun _ => rfl
  have hnonce : (db.scan prefixNonce).flatMap (fun e => e.1 ++ e.2) =
      scanPrefix "nnc/" nonceBytes s.nonces :=
    h.flatMap_scan .nonce rfl fun _ => rfl
  have hanchor : (db.scan prefixAnchor).flatMap (fun e => e.1 ++ e.2) =
      scanPrefix "anc/" serialize s.records.anchors :=
    h.flatMap_scan .anchor rfl fun _ => rfl
  simp only [Rocks.hashed, statePrefixes, List.flatMap_cons, List.flatMap_nil, List.append_nil,
    hparticipant, hsettlement, hbalance, hescrow, hdispute, hnonce, hanchor, stateStream,
    List.append_assoc]

/-- **The root of the database is the root of the typed maps.** -/
theorem Refines.computeStateRoot_eq {db : Rocks} {s : Store} (h : Refines db s) (C : Crypto) :
    db.computeStateRoot C = computeStateRoot C s :=
  congrArg C.hash h.hashed_eq

/-! ## The stream -/

/-- An entry of the state. -/
inductive StateEntry where
  | participant (id : Id) (p : Participant)
  | settlement (recordId : Id) (r : SettlementRecord)
  | balance (owner : Id) (b : RCWBalance)
  | escrow (escrowId : Id) (e : Escrow)
  | dispute (disputeId : Id) (d : Dispute)
  | nonce (sender : Id) (n : UInt64)
  | anchor (batchId : Id) (a : AnchorRecord)

namespace StateEntry

def kind : StateEntry → StateKind
  | .participant _ _ => .participant
  | .settlement _ _ => .settlement
  | .balance _ _ => .balance
  | .escrow _ _ => .escrow
  | .dispute _ _ => .dispute
  | .nonce _ _ => .nonce
  | .anchor _ _ => .anchor

/-- What the stream holds for the entry behind its prefix. -/
def body : StateEntry → List UInt8
  | .participant id p => serialize id ++ serialize p
  | .settlement id r => serialize id ++ serialize r
  | .balance id b => serialize id ++ serialize b
  | .escrow id e => serialize id ++ serialize e
  | .dispute id d => serialize id ++ serialize d
  | .nonce id n => serialize id ++ toBeBytes n
  | .anchor id a => serialize id ++ serialize a

def bytes (e : StateEntry) : List UInt8 := e.kind.keyPrefix ++ e.body

def Fits : StateEntry → Prop
  | .participant _ p => p.Fits
  | .dispute _ d => d.Fits
  | _ => True

theorem bytes_ne_nil (e : StateEntry) : e.bytes ≠ [] := by
  intro h
  have hlen := e.kind.length_keyPrefix
  rw [(List.append_eq_nil_iff.1 h).1] at hlen
  cases hlen

/-- The id of an entry, and then its value. -/
theorem cancel_body {α : Type} [Serialize α] [Deserialize α] {id id' : Id} {a a' : α}
    (h : RoundTrips a) (h' : RoundTrips a') {s s' : List UInt8}
    (he : serialize id ++ serialize a ++ s = serialize id' ++ serialize a' ++ s') :
    id = id' ∧ a = a' ∧ s = s' := by
  rw [List.append_assoc, List.append_assoc] at he
  obtain ⟨hid, he⟩ := Delimited.cancel he
  exact ⟨hid, h.cancel h' he⟩

theorem cancel_nonce {id id' : Id} {n n' : UInt64} {s s' : List UInt8}
    (he : serialize id ++ toBeBytes n ++ s = serialize id' ++ toBeBytes n' ++ s') :
    id = id' ∧ n = n' ∧ s = s' := by
  rw [List.append_assoc, List.append_assoc] at he
  obtain ⟨hid, he⟩ := Delimited.cancel he
  have hlen : (toBeBytes n).length = (toBeBytes n').length := by
    rw [length_toBeBytes, length_toBeBytes]
  obtain ⟨hn, hs⟩ := List.append_inj he hlen
  exact ⟨hid, toBeBytes_injective hn, hs⟩

/-- **Entries say where they end**: the prefix tells the kind, and so the type of the value. -/
theorem cancel {e e' : StateEntry} {s s' : List UInt8} (h : e.Fits) (h' : e'.Fits)
    (he : e.bytes ++ s = e'.bytes ++ s') : e = e' ∧ s = s' := by
  rw [bytes, bytes, List.append_assoc, List.append_assoc] at he
  obtain ⟨htag, hbody⟩ := List.append_inj he
    (e.kind.length_keyPrefix.trans e'.kind.length_keyPrefix.symm)
  have hkind := StateKind.keyPrefix_injective htag
  cases e <;> cases e' <;> try cases hkind
  case participant.participant =>
    obtain ⟨rfl, rfl, hs⟩ := cancel_body (Participant.Fits.roundTrips h)
      (Participant.Fits.roundTrips h') hbody
    exact ⟨rfl, hs⟩
  case settlement.settlement =>
    obtain ⟨rfl, rfl, hs⟩ := cancel_body (roundTrips _) (roundTrips _) hbody
    exact ⟨rfl, hs⟩
  case balance.balance =>
    obtain ⟨rfl, rfl, hs⟩ := cancel_body (roundTrips _) (roundTrips _) hbody
    exact ⟨rfl, hs⟩
  case escrow.escrow =>
    obtain ⟨rfl, rfl, hs⟩ := cancel_body (roundTrips _) (roundTrips _) hbody
    exact ⟨rfl, hs⟩
  case dispute.dispute =>
    obtain ⟨rfl, rfl, hs⟩ := cancel_body (Dispute.Fits.roundTrips h)
      (Dispute.Fits.roundTrips h') hbody
    exact ⟨rfl, hs⟩
  case nonce.nonce =>
    obtain ⟨rfl, rfl, hs⟩ := cancel_nonce hbody
    exact ⟨rfl, hs⟩
  case anchor.anchor =>
    obtain ⟨rfl, rfl, hs⟩ := cancel_body (roundTrips _) (roundTrips _) hbody
    exact ⟨rfl, hs⟩

end StateEntry

/-- The entries of the state, in the order of the stream. -/
def Store.stateEntries (s : Store) : List StateEntry :=
  s.records.participants.toList.map (fun e => .participant e.1 e.2) ++
  s.records.settlements.toList.map (fun e => .settlement e.1 e.2) ++
  s.records.balances.toList.map (fun e => .balance e.1 e.2) ++
  s.records.escrows.toList.map (fun e => .escrow e.1 e.2) ++
  s.records.disputes.toList.map (fun e => .dispute e.1 e.2) ++
  s.nonces.toList.map (fun e => .nonce e.1 e.2) ++
  s.records.anchors.toList.map (fun e => .anchor e.1 e.2)

theorem stateStream_eq (s : Store) : stateStream s = s.stateEntries.flatMap StateEntry.bytes := by
  simp only [stateStream, scanPrefix, Store.stateEntries, List.flatMap_append, List.flatMap_map,
    StateEntry.bytes, StateEntry.body, ← List.append_assoc]
  rfl

/-- The entries determine the maps. -/
theorem sameState_of_entries {s s' : Store} (h : s.stateEntries = s'.stateEntries) :
    s.SameState s' := by
  have hmem : ∀ e, e ∈ s.stateEntries ↔ e ∈ s'.stateEntries := fun e => by rw [h]
  simp only [Store.stateEntries, List.mem_append, List.mem_map, Prod.exists,
    ExtTreeMap.mem_toList_iff_getElem?_eq_some] at hmem
  have hrecords : s.records = s'.records := by
    have hparticipants : s.records.participants = s'.records.participants :=
      ExtTreeMap.ext_getElem? fun id => Option.ext fun p => by simpa using hmem (.participant id p)
    have hsettlements : s.records.settlements = s'.records.settlements :=
      ExtTreeMap.ext_getElem? fun id => Option.ext fun r => by simpa using hmem (.settlement id r)
    have hbalances : s.records.balances = s'.records.balances :=
      ExtTreeMap.ext_getElem? fun id => Option.ext fun b => by simpa using hmem (.balance id b)
    have hescrows : s.records.escrows = s'.records.escrows :=
      ExtTreeMap.ext_getElem? fun id => Option.ext fun e => by simpa using hmem (.escrow id e)
    have hdisputes : s.records.disputes = s'.records.disputes :=
      ExtTreeMap.ext_getElem? fun id => Option.ext fun d => by simpa using hmem (.dispute id d)
    have hanchors : s.records.anchors = s'.records.anchors :=
      ExtTreeMap.ext_getElem? fun id => Option.ext fun a => by simpa using hmem (.anchor id a)
    cases hr : s.records
    cases hr' : s'.records
    simp only [hr, hr'] at hparticipants hsettlements hbalances hescrows hdisputes hanchors
    rw [hparticipants, hsettlements, hbalances, hescrows, hdisputes, hanchors]
  exact ⟨hrecords,
    ExtTreeMap.ext_getElem? fun id => Option.ext fun n => by simpa using hmem (.nonce id n)⟩

/-- The strings and vectors in the state have lengths that a `u64` holds. -/
def Store.EntriesFit (s : Store) : Prop := ∀ e ∈ s.stateEntries, e.Fits

/-- **The stream determines the state.** -/
theorem stateStream_iff {s s' : Store} (h : s.EntriesFit) (h' : s'.EntriesFit) :
    stateStream s = stateStream s' ↔ s.SameState s' := by
  constructor
  · intro he
    rw [stateStream_eq, stateStream_eq] at he
    exact sameState_of_entries
      (flatMap_cancel StateEntry.cancel StateEntry.bytes_ne_nil h h' he)
  · intro hsame
    unfold stateStream
    rw [hsame.1, hsame.2]

/-! ## The root -/

theorem entriesFit_ofOps {ops : List StoreOp} (h : ∀ op ∈ ops, op.Fits) :
    (Store.ofOps ops).EntriesFit := by
  have hlast : (Store.ofOps ops).HoldsLast (ops.flatMap StoreOp.writes) := holdsLast_run _
  have hfits := fits_writes h
  intro e he
  simp only [Store.stateEntries, List.mem_append, List.mem_map, Prod.exists,
    ExtTreeMap.mem_toList_iff_getElem?_eq_some] at he
  cases e with
  | participant id p =>
    have hp : (Store.ofOps ops).records.participants[id]? = some p := by simpa using he
    rw [hlast.participant] at hp
    exact of_lastOf hfits Write.Fits.participant? p hp
  | dispute id d =>
    have hd : (Store.ofOps ops).records.disputes[id]? = some d := by simpa using he
    rw [hlast.dispute] at hd
    exact of_lastOf hfits Write.Fits.dispute? d hd
  | _ => trivial

/-- **The state root commits to the whole state.** After any operations on two empty
databases the hasher is fed the same bytes exactly if the typed maps are the same; so with a
hash that keeps the two streams apart, equal roots mean equal states. -/
theorem root_commits {ops ops' : List StoreOp} (h : ∀ op ∈ ops, op.Fits)
    (h' : ∀ op ∈ ops', op.Fits) :
    ((Runs.run Rocks.apply .empty ops).hashed = (Runs.run Rocks.apply .empty ops').hashed ↔
      (Store.ofOps ops).SameState (.ofOps ops')) ∧
    ∀ C : Crypto,
      Set.InjOn C.hash {(Runs.run Rocks.apply .empty ops).hashed,
        (Runs.run Rocks.apply .empty ops').hashed} →
      (Runs.run Rocks.apply .empty ops).computeStateRoot C =
        (Runs.run Rocks.apply .empty ops').computeStateRoot C →
      (Store.ofOps ops).SameState (.ofOps ops') := by
  have hiff : (Runs.run Rocks.apply .empty ops).hashed =
      (Runs.run Rocks.apply .empty ops').hashed ↔ (Store.ofOps ops).SameState (.ofOps ops') := by
    rw [(refines_run ops).hashed_eq, (refines_run ops').hashed_eq]
    exact stateStream_iff (entriesFit_ofOps h) (entriesFit_ofOps h')
  exact ⟨hiff, fun C hC hroot => hiff.1 (hC (.inl rfl) (.inr rfl) hroot)⟩

/-- Two sets in one batch, and the same sets in the other order with a block between them. -/
theorem root_commits_toy :
    let ops : List StoreOp := [.commitBatch [.nonce 1 5, .balance 2 ⟨2, 7, 0⟩]]
    let ops' : List StoreOp :=
      [.write (.balance 2 ⟨2, 7, 0⟩), .write (.block (.genesis 0 1)), .write (.nonce 1 5)]
    ((Runs.run Rocks.apply .empty ops).hashed = (Runs.run Rocks.apply .empty ops').hashed ↔
      (Store.ofOps ops).SameState (.ofOps ops')) ∧
    ∀ C : Crypto,
      Set.InjOn C.hash {(Runs.run Rocks.apply .empty ops).hashed,
        (Runs.run Rocks.apply .empty ops').hashed} →
      (Runs.run Rocks.apply .empty ops).computeStateRoot C =
        (Runs.run Rocks.apply .empty ops').computeStateRoot C →
      (Store.ofOps ops).SameState (.ofOps ops') := by
  have hgenesis : (Block.genesis 0 1).Fits :=
    ⟨⟨by decide, fun _ h => absurd h List.not_mem_nil⟩, by decide⟩
  refine root_commits ?_ ?_
  · simp [StoreOp.Fits, StoreOp.writes, BatchedSet.direct, Write.Fits]
  · simpa [StoreOp.Fits, StoreOp.writes, Write.Fits] using hgenesis

end RoutineChain
