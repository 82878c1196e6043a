import RoutineChain.Proof.Codec
import RoutineChain.Spec.Rocks

/-!
# One byte map for all the typed maps

* `Slot.key_injective`: kind and id determine the key, and the key determines them.
* `Refines`: the database holds what the typed maps hold, and nothing else.
* `refines_run`: it does after every sequence of writes and batches on an empty database.
* `store_refines`: so every getter returns what was last written for its kind and id.
-/

namespace RoutineChain

open Bincode Std

/-! ## Keys -/

theorem length_toBeBytes (n : UInt64) : (toBeBytes n).length = 8 := by
  rw [toBeBytes, List.length_reverse, length_leBytes]

theorem toBeBytes_injective : Function.Injective toBeBytes := by
  intro n n' h
  have hval : leNat (toBeBytes n).reverse = leNat (toBeBytes n').reverse := by rw [h]
  rw [toBeBytes, toBeBytes, List.reverse_reverse, List.reverse_reverse,
    leNat_leBytes n.toNat_lt, leNat_leBytes n'.toNat_lt] at hval
  exact UInt64.toNat_inj.1 hval

/-- The kinds of state entries. -/
inductive StateKind where
  | participant | settlement | balance | escrow | dispute | nonce | anchor
  deriving DecidableEq

def StateKind.keyPrefix : StateKind → List UInt8
  | .participant => prefixParticipant
  | .settlement => prefixSettlement
  | .balance => prefixBalance
  | .escrow => prefixEscrow
  | .dispute => prefixDispute
  | .nonce => prefixNonce
  | .anchor => prefixAnchor

theorem StateKind.length_keyPrefix (kind : StateKind) : kind.keyPrefix.length = 4 := by
  cases kind <;> rfl

theorem StateKind.keyPrefix_injective : Function.Injective StateKind.keyPrefix := by
  intro kind kind' h
  cases kind <;> cases kind' <;> first | rfl | exact absurd h (by decide)

/-- What an entry is for. -/
inductive Slot where
  | block (height : UInt64)
  | state (kind : StateKind) (id : Id)
  | latestHeight
  deriving DecidableEq

namespace Slot

/-- The first four bytes of the key. -/
def tag : Slot → List UInt8
  | .block _ => prefixBlock
  | .state kind _ => kind.keyPrefix
  | .latestHeight => byteString "meta"

/-- The rest of the key. -/
def suffix : Slot → List UInt8
  | .block height => toBeBytes height
  | .state _ id => serialize id
  | .latestHeight => byteString "/latest_height"

def key (slot : Slot) : List UInt8 := slot.tag ++ slot.suffix

theorem length_tag (slot : Slot) : slot.tag.length = 4 := by
  cases slot with
  | block => rfl
  | state kind => exact kind.length_keyPrefix
  | latestHeight => rfl

theorem keyPrefix_ne (kind : StateKind) :
    kind.keyPrefix ≠ prefixBlock ∧ kind.keyPrefix ≠ byteString "meta" := by
  cases kind <;> decide

theorem prefixBlock_ne : prefixBlock ≠ byteString "meta" := by decide

theorem key_injective : Function.Injective key := by
  intro slot slot' h
  obtain ⟨htag, hsuffix⟩ := List.append_inj h (slot.length_tag.trans slot'.length_tag.symm)
  cases slot <;> cases slot'
  case block.block => rw [toBeBytes_injective hsuffix]
  case state.state kind id kind' id' =>
    rw [StateKind.keyPrefix_injective htag, Delimited.injective Id hsuffix]
  case latestHeight.latestHeight => rfl
  case block.state kind _ => exact absurd htag.symm (keyPrefix_ne kind).1
  case latestHeight.state kind _ => exact absurd htag.symm (keyPrefix_ne kind).2
  case state.block kind _ _ => exact absurd htag (keyPrefix_ne kind).1
  case state.latestHeight kind _ => exact absurd htag (keyPrefix_ne kind).2
  case block.latestHeight => exact absurd htag prefixBlock_ne
  case latestHeight.block => exact absurd htag.symm prefixBlock_ne

end Slot

/-! ## The database under the typed maps -/

theorem Rocks.get_put (db : Rocks) (key value key' : List UInt8) :
    (db.put key value).get key' = if key = key' then some value else db.get key' := by
  simp only [get, put, ExtTreeMap.getElem?_insert, Std.compare_eq_iff_eq]

/-- What the typed maps hold for a slot, as bytes. -/
def Store.entry (s : Store) : Slot → Option (List UInt8)
  | .block height => s.blocks[height]?.map serialize
  | .state .participant id => s.records.participants[id]?.map serialize
  | .state .settlement id => s.records.settlements[id]?.map serialize
  | .state .balance id => s.records.balances[id]?.map serialize
  | .state .escrow id => s.records.escrows[id]?.map serialize
  | .state .dispute id => s.records.disputes[id]?.map serialize
  | .state .nonce id => s.nonces[id]?.map toBeBytes
  | .state .anchor id => s.records.anchors[id]?.map serialize
  | .latestHeight => s.latestHeight.map toBeBytes

/-- The database holds the entries, each under the key of its slot, and nothing else. -/
structure Rocks.Holds (db : Rocks) (entry : Slot → Option (List UInt8)) : Prop where
  get_key : ∀ slot, db.get slot.key = entry slot
  keys : ∀ k, (db.get k).isSome → ∃ slot : Slot, slot.key = k

/-- **The database refines the typed maps.** -/
abbrev Refines (db : Rocks) (s : Store) : Prop := db.Holds s.entry

theorem refines_empty : Refines .empty .empty where
  get_key slot := by
    rcases slot with height | ⟨kind, id⟩ | _
    · rfl
    · cases kind <;> rfl
    · rfl
  keys k h := by
    cases h

/-- One put, on the database and on the entries. -/
theorem Rocks.Holds.put {db : Rocks} {entry : Slot → Option (List UInt8)} (h : db.Holds entry)
    (slot : Slot) (value : List UInt8) :
    (db.put slot.key value).Holds (Function.update entry slot (some value)) where
  get_key slot' := by
    rw [get_put, Function.update_apply, h.get_key]
    simp only [Slot.key_injective.eq_iff, eq_comm]
  keys k hk := by
    rw [get_put] at hk
    split at hk
    case isTrue heq => exact ⟨slot, heq⟩
    case isFalse => exact h.keys k hk

/-- The slots that a write sets, with the values. -/
def Write.puts : Write → List (Slot × List UInt8)
  | .block b =>
    [(.block b.header.height, serialize b), (.latestHeight, toBeBytes b.header.height)]
  | .participant id p => [(.state .participant id, serialize p)]
  | .settlement id r => [(.state .settlement id, serialize r)]
  | .balance id b => [(.state .balance id, serialize b)]
  | .escrow id e => [(.state .escrow id, serialize e)]
  | .dispute id d => [(.state .dispute id, serialize d)]
  | .nonce id n => [(.state .nonce id, toBeBytes n)]
  | .anchor id a => [(.state .anchor id, serialize a)]

theorem Rocks.write_eq (db : Rocks) (w : Write) :
    db.write w = w.puts.foldl (fun db e => db.put e.1.key e.2) db := by
  cases w <;> rfl

theorem map_getElem?_insert {K V β : Type} [DecidableEq K] [Ord K] [TransOrd K] [LawfulEqOrd K]
    (f : V → β)
    (t : ExtTreeMap K V compare) (k k' : K) (v : V) :
    (t.insert k v)[k']?.map f = if k' = k then some (f v) else t[k']?.map f := by
  simp only [ExtTreeMap.getElem?_insert, Std.compare_eq_iff_eq, eq_comm (a := k)]
  split <;> rfl

/-- A write on the typed maps changes the entries that it sets, and no other. -/
theorem Store.entry_write (s : Store) (w : Write) : (s.write w).entry =
    w.puts.foldl (fun (entry : Slot → Option (List UInt8)) e =>
      Function.update entry e.1 (some e.2)) s.entry := by
  funext slot
  cases w <;> rcases slot with height | ⟨_ | _, id⟩ | _ <;>
    simp [Store.write, Store.putBlock, Store.setNonce, Write.puts, Store.entry,
      Function.update_apply, map_getElem?_insert]

/-- **A direct write keeps the refinement.** -/
theorem Refines.write {db : Rocks} {s : Store} (h : Refines db s) (w : Write) :
    Refines (db.write w) (s.write w) := by
  have hputs : ∀ (puts : List (Slot × List UInt8)) {db : Rocks}
      {entry : Slot → Option (List UInt8)}, db.Holds entry →
      (puts.foldl (fun db e => db.put e.1.key e.2) db).Holds
        (puts.foldl (fun entry e => Function.update entry e.1 (some e.2)) entry) := by
    intro puts
    induction puts with
    | nil => exact id
    | cons e puts ih => exact fun h => ih (h.put e.1 e.2)
  rw [Refines, Rocks.write_eq, Store.entry_write]
  exact hputs w.puts h

/-! ## Batches -/

/-- A batch with one more set is committed like the batch and the direct write. -/
theorem commitBatch_set (db : Rocks) (batch : StoreBatch) (x : BatchedSet) :
    db.commitBatch (batch.set x) = (db.commitBatch batch).write x.direct := by
  have hput : ∀ key value, db.commitBatch (batch.put key value) =
      (db.commitBatch batch).put key value := by
    intro key value
    rw [Rocks.commitBatch, StoreBatch.put, List.foldl_append]
    rfl
  cases x <;> exact hput _ _

/-- **A batch does what its sets do one by one.** -/
theorem apply_eq (db : Rocks) (op : StoreOp) :
    db.apply op = Runs.run Rocks.write db op.writes := by
  have hsets : ∀ (sets : List BatchedSet) (batch : StoreBatch),
      db.commitBatch (sets.foldl StoreBatch.set batch) =
        Runs.run Rocks.write (db.commitBatch batch) (sets.map BatchedSet.direct) := by
    intro sets
    induction sets with
    | nil => exact fun batch => rfl
    | cons x sets ih =>
      intro batch
      rw [List.foldl_cons, ih, commitBatch_set]
      rfl
  cases op with
  | write w => rfl
  | commitBatch sets => exact hsets sets .newBatch

theorem run_apply (db : Rocks) (ops : List StoreOp) :
    Runs.run Rocks.apply db ops = Runs.run Rocks.write db (ops.flatMap StoreOp.writes) := by
  have happly : Rocks.apply = fun db op => Runs.run Rocks.write db op.writes := by
    funext db op
    exact apply_eq db op
  rw [happly]
  exact Runs.run_flatMap _ _ _ _

/-- **Every sequence of operations keeps the refinement.** -/
theorem refines_run (ops : List StoreOp) :
    Refines (Runs.run Rocks.apply .empty ops) (.ofOps ops) := by
  rw [run_apply]
  exact Runs.sim_run (fun _ _ w h => h.write w) refines_empty _

/-! ## The last write -/

/-- The value of the last write that `f` selects. -/
def lastOf {α : Type} (f : Write → Option α) (ws : List Write) : Option α :=
  (ws.filterMap f).getLast?

/-- The write sets this entry of the participants, to this value; and so for the others. -/
def Write.participant? (id : Id) : Write → Option Participant
  | .participant i p => if i = id then some p else none
  | _ => none

def Write.settlement? (id : Id) : Write → Option SettlementRecord
  | .settlement i r => if i = id then some r else none
  | _ => none

def Write.balance? (owner : Id) : Write → Option RCWBalance
  | .balance i b => if i = owner then some b else none
  | _ => none

def Write.escrow? (id : Id) : Write → Option Escrow
  | .escrow i e => if i = id then some e else none
  | _ => none

def Write.dispute? (id : Id) : Write → Option Dispute
  | .dispute i d => if i = id then some d else none
  | _ => none

def Write.nonce? (sender : Id) : Write → Option UInt64
  | .nonce i n => if i = sender then some n else none
  | _ => none

def Write.anchor? (id : Id) : Write → Option AnchorRecord
  | .anchor i a => if i = id then some a else none
  | _ => none

/-- The write stores this block, at this height. -/
def Write.blockAt? (height : UInt64) : Write → Option Block
  | .block b => if b.header.height = height then some b else none
  | _ => none

/-- The write stores a block, of this height. -/
def Write.height? : Write → Option UInt64
  | .block b => some b.header.height
  | _ => none

/-- What a lookup in the typed maps finds after some writes, if one write changes it only by
what `f` selects. -/
theorem look_run {α : Type} (look : Store → Option α) {f : Write → Option α}
    (hempty : look .empty = none) (hwrite : ∀ s w, look (s.write w) = (f w).or (look s))
    (ws : List Write) : look (Runs.run Store.write .empty ws) = lastOf f ws := by
  induction ws using List.reverseRecOn with
  | nil => exact hempty
  | append_singleton ws w ih =>
    rw [Runs.run_append, Runs.run_cons, Runs.run_nil, hwrite, ih, lastOf, lastOf,
      List.filterMap_append]
    cases hw : f w with
    | none => simp [hw]
    | some a => simp [hw]

theorem mem_of_lastOf {α : Type} {f : Write → Option α} {ws : List Write} {a : α}
    (h : lastOf f ws = some a) : ∃ w ∈ ws, f w = some a :=
  List.mem_filterMap.1 (List.mem_of_getLast? h)

theorem getElem?_insert_or {K V : Type} [DecidableEq K] [Ord K] [TransOrd K] [LawfulEqOrd K]
    (t : ExtTreeMap K V compare) (k k' : K) (v : V) :
    (t.insert k v)[k']? = (if k = k' then some v else none).or t[k']? := by
  simp only [ExtTreeMap.getElem?_insert, Std.compare_eq_iff_eq]
  split <;> rfl

/-- The typed maps hold the last writes. -/
structure Store.HoldsLast (s : Store) (ws : List Write) : Prop where
  participant : ∀ id, s.records.participants[id]? = lastOf (Write.participant? id) ws
  settlement : ∀ id, s.records.settlements[id]? = lastOf (Write.settlement? id) ws
  balance : ∀ id, s.records.balances[id]? = lastOf (Write.balance? id) ws
  escrow : ∀ id, s.records.escrows[id]? = lastOf (Write.escrow? id) ws
  dispute : ∀ id, s.records.disputes[id]? = lastOf (Write.dispute? id) ws
  nonce : ∀ id, s.nonces[id]? = lastOf (Write.nonce? id) ws
  anchor : ∀ id, s.records.anchors[id]? = lastOf (Write.anchor? id) ws
  block : ∀ height, s.blocks[height]? = lastOf (Write.blockAt? height) ws
  latestHeight : s.latestHeight = lastOf Write.height? ws

theorem holdsLast_run (ws : List Write) : (Runs.run Store.write .empty ws).HoldsLast ws where
  participant id := by
    refine look_run (fun s => s.records.participants[id]?) rfl ?_ ws
    intro s w
    cases w <;> first | rfl | exact getElem?_insert_or _ _ _ _
  settlement id := by
    refine look_run (fun s => s.records.settlements[id]?) rfl ?_ ws
    intro s w
    cases w <;> first | rfl | exact getElem?_insert_or _ _ _ _
  balance id := by
    refine look_run (fun s => s.records.balances[id]?) rfl ?_ ws
    intro s w
    cases w <;> first | rfl | exact getElem?_insert_or _ _ _ _
  escrow id := by
    refine look_run (fun s => s.records.escrows[id]?) rfl ?_ ws
    intro s w
    cases w <;> first | rfl | exact getElem?_insert_or _ _ _ _
  dispute id := by
    refine look_run (fun s => s.records.disputes[id]?) rfl ?_ ws
    intro s w
    cases w <;> first | rfl | exact getElem?_insert_or _ _ _ _
  nonce id := by
    refine look_run (fun s => s.nonces[id]?) rfl ?_ ws
    intro s w
    cases w <;> first | rfl | exact getElem?_insert_or _ _ _ _
  anchor id := by
    refine look_run (fun s => s.records.anchors[id]?) rfl ?_ ws
    intro s w
    cases w <;> first | rfl | exact getElem?_insert_or _ _ _ _
  block height := by
    refine look_run (fun s => s.blocks[height]?) rfl ?_ ws
    intro s w
    cases w <;> first | rfl | exact getElem?_insert_or _ _ _ _
  latestHeight := by
    refine look_run (fun s => s.latestHeight) rfl ?_ ws
    intro s w
    cases w <;> rfl

/-! ## The getters -/

theorem fromBeBytes_toBeBytes (n : UInt64) : fromBeBytes (some (toBeBytes n)) = n := by
  rw [fromBeBytes, if_pos (length_toBeBytes n), toBeBytes, List.reverse_reverse,
    leNat_leBytes n.toNat_lt, UInt64.ofNat_toNat]

theorem fromBeBytes_map (v : Option UInt64) : fromBeBytes (v.map toBeBytes) = v.getD 0 := by
  cases v with
  | none => rfl
  | some n => exact fromBeBytes_toBeBytes n

/-- A stored value that round trips is what `get_state` returns. -/
theorem getState_eq {α : Type} [Serialize α] [Deserialize α] {db : Rocks} {keyPrefix : List UInt8}
    {id : Id} {v : Option α} (hget : db.get (keyPrefix ++ serialize id) = v.map serialize)
    (hv : ∀ a, v = some a → RoundTrips a) : db.getState α keyPrefix id = .ok v := by
  unfold Rocks.getState
  rw [hget]
  cases v with
  | none => rfl
  | some a =>
    show some <$> fromBytes α (serialize a) = _
    rw [(hv a rfl).decode]
    rfl

/-- Every getter returns what was last written for its kind and id. -/
structure Rocks.ReadsLast (db : Rocks) (ws : List Write) : Prop where
  getParticipant : ∀ id, db.getParticipant id = .ok (lastOf (Write.participant? id) ws)
  getSettlement : ∀ id, db.getSettlement id = .ok (lastOf (Write.settlement? id) ws)
  getBalance : ∀ owner, db.getBalance owner =
    .ok ((lastOf (Write.balance? owner) ws).getD { owner, earned := 0, purchased := 0 })
  getEscrow : ∀ id, db.getEscrow id = .ok (lastOf (Write.escrow? id) ws)
  getDispute : ∀ id, db.getDispute id = .ok (lastOf (Write.dispute? id) ws)
  getNonce : ∀ sender, db.getNonce sender = (lastOf (Write.nonce? sender) ws).getD 0
  getAnchor : ∀ id, db.getAnchor id = .ok (lastOf (Write.anchor? id) ws)
  getBlock : ∀ height, db.getBlock height = .ok (lastOf (Write.blockAt? height) ws)
  getLatestHeight : db.getLatestHeight = (lastOf Write.height? ws).getD 0

/-- What holds of all values written holds of those found. -/
theorem of_lastOf {α : Type} {f : Write → Option α} {Q : α → Prop} {ws : List Write}
    (hfits : ∀ w ∈ ws, w.Fits) (hf : ∀ w a, w.Fits → f w = some a → Q a) :
    ∀ a, lastOf f ws = some a → Q a := by
  intro a ha
  obtain ⟨w, hw, hfw⟩ := mem_of_lastOf ha
  exact hf w a (hfits w hw) hfw

theorem Write.Fits.participant? {id : Id} (w : Write) (p : Participant) (h : w.Fits)
    (hp : w.participant? id = some p) : p.Fits := by
  cases w with
  | participant i q =>
    rw [Write.participant?] at hp
    split at hp <;> cases hp
    exact h
  | _ => cases hp

theorem Write.Fits.dispute? {id : Id} (w : Write) (d : Dispute) (h : w.Fits)
    (hd : w.dispute? id = some d) : d.Fits := by
  cases w with
  | dispute i e =>
    rw [Write.dispute?] at hd
    split at hd <;> cases hd
    exact h
  | _ => cases hd

theorem Write.Fits.blockAt? {height : UInt64} (w : Write) (b : Block) (h : w.Fits)
    (hb : w.blockAt? height = some b) : b.Fits := by
  cases w with
  | block c =>
    rw [Write.blockAt?] at hb
    split at hb <;> cases hb
    exact h
  | _ => cases hb

/-- A database that refines typed maps with the last writes reads them. -/
theorem Refines.readsLast {db : Rocks} {s : Store} {ws : List Write} (h : Refines db s)
    (hlast : s.HoldsLast ws) (hfits : ∀ w ∈ ws, w.Fits) : db.ReadsLast ws where
  getParticipant id := by
    refine getState_eq ?_ fun p hp => (of_lastOf hfits Write.Fits.participant? p hp).roundTrips
    rw [← hlast.participant id]
    exact h.get_key (.state .participant id)
  getSettlement id := by
    refine getState_eq ?_ fun r _ => roundTrips r
    rw [← hlast.settlement id]
    exact h.get_key (.state .settlement id)
  getBalance owner := by
    have hstate : db.getState RCWBalance prefixBalance owner =
        .ok (lastOf (Write.balance? owner) ws) := by
      refine getState_eq ?_ fun b _ => roundTrips b
      rw [← hlast.balance owner]
      exact h.get_key (.state .balance owner)
    rw [Rocks.getBalance, hstate]
    cases lastOf (Write.balance? owner) ws <;> rfl
  getEscrow id := by
    refine getState_eq ?_ fun e _ => roundTrips e
    rw [← hlast.escrow id]
    exact h.get_key (.state .escrow id)
  getDispute id := by
    refine getState_eq ?_ fun d hd => (of_lastOf hfits Write.Fits.dispute? d hd).roundTrips
    rw [← hlast.dispute id]
    exact h.get_key (.state .dispute id)
  getNonce sender := by
    rw [← hlast.nonce sender, ← fromBeBytes_map]
    exact congrArg fromBeBytes (h.get_key (.state .nonce sender))
  getAnchor id := by
    refine getState_eq ?_ fun a _ => roundTrips a
    rw [← hlast.anchor id]
    exact h.get_key (.state .anchor id)
  getBlock height := by
    have hget : db.get (blockKey height) = (lastOf (Write.blockAt? height) ws).map serialize := by
      rw [← hlast.block height]
      exact h.get_key (.block height)
    unfold Rocks.getBlock
    rw [hget]
    cases hlastBlock : lastOf (Write.blockAt? height) ws with
    | none => rfl
    | some b =>
      show some <$> fromBytes Block (serialize b) = _
      rw [(of_lastOf hfits Write.Fits.blockAt? b hlastBlock).roundTrips.decode]
      rfl
  getLatestHeight := by
    rw [← hlast.latestHeight, ← fromBeBytes_map]
    exact congrArg fromBeBytes (h.get_key .latestHeight)

theorem fits_writes {ops : List StoreOp} (h : ∀ op ∈ ops, op.Fits) :
    ∀ w ∈ ops.flatMap StoreOp.writes, w.Fits := by
  intro w hw
  obtain ⟨op, hop, hw⟩ := List.mem_flatMap.1 hw
  exact h op hop w hw

/-- **The store refines independent typed maps**: after any operations on an empty database,
every getter returns the last value written for exactly its kind and id, or its default; and
a batch does what its sets do one by one. -/
theorem store_refines :
    (∀ ops : List StoreOp, (∀ op ∈ ops, op.Fits) →
      (Runs.run Rocks.apply .empty ops).ReadsLast (ops.flatMap StoreOp.writes)) ∧
    ∀ (db : Rocks) (sets : List BatchedSet), db.apply (.commitBatch sets) =
      Runs.run Rocks.apply db (sets.map fun x => .write x.direct) := by
  constructor
  · intro ops hfits
    exact (refines_run ops).readsLast (holdsLast_run _) (fits_writes hfits)
  · intro db sets
    rw [apply_eq, run_apply, List.flatMap_map]
    exact congrArg (Runs.run Rocks.write db) (List.map_eq_flatMap)

end RoutineChain
