import RoutineChain.Proof.Proposer
import RoutineChain.Spec.Wire

/-!
# The encodings round trip

Every value of the types that are signed, stored or sent is read back from its encoding.
Types without strings and lists do so outright (`Codec`); the others if they `Fit`, as every
value of the source does.

* `Transaction.Fits.roundTrips`, `Block.Fits.roundTrips`, `ConsensusMessage.Fits.roundTrips`.
* `run_deserializeSignature`, `deserializeSignature_error`: a signature is written as a byte
  slice and read as a vector of bytes, of 64 bytes only.
-/

namespace RoutineChain

open Bincode

/-! ## Types of fixed size -/

instance : Codec (BitVec 32) := .bitVec rfl

instance : Codec (BitVec 256) := .bitVec rfl

instance : Codec (BitVec 512) := .bitVec rfl

/-- The next field of a record. -/
theorem run_field {α β : Type} [Serialize α] [Deserialize α] [Codec α] (a : α)
    (f : α → Decoder β) (s : List UInt8) :
    (deserialize >>= f).run (serialize a ++ s) = (f a).run s :=
  (roundTrips a).bind f s

/-- The tag of an enum. -/
theorem run_tag {β : Type} (i : UInt32) (f : UInt32 → Decoder β) (s : List UInt8) :
    (deserialize >>= f).run (tag i ++ s) = (f i).run s :=
  run_field i f s

instance : Codec ParticipantType := ⟨fun t s => by
  show ((deserialize : Decoder UInt32) >>= _).run (tag t.index ++ s) = _
  rw [run_tag]
  cases t <;> rfl⟩

instance : Codec DisputeReason := ⟨fun r s => by
  cases r <;> exact run_tag _ _ s⟩

instance : Codec DisputeDecision := ⟨fun d s => by
  cases d <;> exact run_tag _ _ s⟩

instance : Codec EscrowState := ⟨fun e s => by
  cases e <;> exact run_tag _ _ s⟩

instance : Codec DisputeState := ⟨fun d s => by
  cases d <;> exact run_tag _ _ s⟩

instance : Codec SettlementData := ⟨fun d s => by
  show (deserialize >>= _).run (serialize d.recordId ++ serialize d.grossAmount ++
    serialize d.platformFee ++ serialize d.netAmount ++ serialize d.currency ++
    serialize d.settledAt ++ s) = _
  simp only [List.append_assoc, run_field]
  rfl⟩

instance : Codec BlockHeader := ⟨fun h s => by
  show (deserialize >>= _).run (serialize h.height ++ serialize h.prevHash ++
    serialize h.timestamp ++ serialize h.txCount ++ serialize h.txHash ++ serialize h.stateRoot ++
    serialize h.proposer ++ s) = _
  simp only [List.append_assoc, run_field]
  rfl⟩

theorem length_header (h : BlockHeader) : (serialize h).length = 148 := by
  show (serialize h.height ++ serialize h.prevHash ++ serialize h.timestamp ++
    serialize h.txCount ++ serialize h.txHash ++ serialize h.stateRoot ++
    serialize h.proposer).length = _
  simp only [List.length_append, length_uint64, length_bitVec, length_int64, length_uint32]

instance : Codec RCWBalance := ⟨fun b s => by
  show (deserialize >>= _).run (serialize b.owner ++ serialize b.earned ++
    serialize b.purchased ++ s) = _
  simp only [List.append_assoc, run_field]
  rfl⟩

instance : Codec Escrow := ⟨fun e s => by
  show (deserialize >>= _).run (serialize e.id ++ serialize e.buyer ++ serialize e.seller ++
    serialize e.amount ++ serialize e.state ++ serialize e.createdAt ++ serialize e.expiresAt ++
    serialize e.evidenceHash ++ serialize e.disputeId ++ s) = _
  simp only [List.append_assoc, run_field]
  rfl⟩

instance : Codec DisputeVote := ⟨fun v s => by
  show (deserialize >>= _).run (serialize v.voter ++ serialize v.decision ++
    serialize v.votedAt ++ s) = _
  simp only [List.append_assoc, run_field]
  rfl⟩

instance : Codec SettlementRecord := ⟨fun r s => by
  show (deserialize >>= _).run (serialize r.recordId ++ serialize r.participantId ++
    serialize r.grossAmount ++ serialize r.platformFee ++ serialize r.netAmount ++
    serialize r.currency ++ serialize r.settledAt ++ serialize r.recordedAt ++ s) = _
  simp only [List.append_assoc, run_field]
  rfl⟩

instance : Codec AnchorRecord := ⟨fun a s => by
  show (deserialize >>= _).run (serialize a.batchId ++ serialize a.merkleRoot ++
    serialize a.entryCount ++ serialize a.fromEntryId ++ serialize a.toEntryId ++
    serialize a.anchoredAt ++ s) = _
  simp only [List.append_assoc, run_field]
  rfl⟩

/-! ## Signatures -/

/-- A slice of bytes reads as a vector of bytes. -/
theorem bytes_eq_serialize (bs : List UInt8) : bytes bs = serialize bs := by
  have hone : bs.flatMap serialize = bs := List.flatMap_singleton' bs
  show _ = serialize (UInt64.ofNat bs.length) ++ bs.flatMap serialize
  rw [hone, bytes]

theorem run_deserializeSignature (sig : Signature) (s : List UInt8) :
    deserializeSignature.run (serializeSignature sig ++ s) = .ok (sig, s) := by
  have hlen : (serialize sig).length = 64 := length_bitVec sig
  have hread : RoundTrips (serialize sig) := .list (by omega) fun b _ => roundTrips b
  rw [serializeSignature, bytes_eq_serialize, deserializeSignature, hread.bind,
    if_neg (not_not.2 hlen), ofNat_serialize rfl]
  rfl

/-- A signature behind which other fields follow. -/
theorem run_signature {β : Type} (sig : Signature) (f : Signature → Decoder β) (s : List UInt8) :
    (deserializeSignature >>= f).run (serializeSignature sig ++ s) = (f sig).run s := by
  rw [StateT.run_bind, run_deserializeSignature]
  rfl

instance : Codec NodeSignature := ⟨fun sig s => by
  show (deserialize >>= _).run (serialize sig.nodeId ++ serializeSignature sig.signature ++ s) = _
  simp only [List.append_assoc, run_field, run_signature]
  rfl⟩

/-- A vector of another length is no signature. -/
theorem deserializeSignature_error {bs : List UInt8} (hfits : bs.length < 2 ^ 64)
    (hlen : bs.length ≠ 64) (s : List UInt8) :
    deserializeSignature.run (bytes bs ++ s) = .error (.custom "Signature must be 64 bytes") := by
  have hread : RoundTrips bs := .list hfits fun b _ => roundTrips b
  rw [bytes_eq_serialize, deserializeSignature, hread.bind, if_pos hlen]
  rfl

/-- Behind another length nothing is a signature, whether the bytes are there or not. -/
theorem deserializeSignature_fails {n : UInt64} (hn : n ≠ 64) (s : List UInt8) :
    deserializeSignature.Fails (serialize n ++ s) := by
  have hread : (deserialize : Decoder (List UInt8)).run (serialize n ++ s) =
      (readMany UInt8 n.toNat).run s := run_field n _ s
  cases hbytes : (readMany UInt8 n.toNat).run s with
  | error e =>
    refine Decoder.Fails.bind ⟨e, ?_⟩ _
    rw [hread, hbytes]
  | ok out =>
    have hlen : out.1.length ≠ 64 := by
      rw [length_of_readMany hbytes]
      intro h
      exact hn (UInt64.toNat_inj.1 h)
    refine ⟨.custom "Signature must be 64 bytes", ?_⟩
    rw [deserializeSignature, StateT.run_bind, hread, hbytes]
    show StateT.run (if out.1.length ≠ 64 then _ else _) out.2 = _
    rw [if_pos hlen]
    rfl

/-! ## Types with strings and lists -/

/-- A string field of a record. -/
theorem run_string {β : Type} {t : String} (h : t.utf8ByteSize < 2 ^ 64) (f : String → Decoder β)
    (s : List UInt8) : (deserialize >>= f).run (serialize t ++ s) = (f t).run s :=
  (RoundTrips.string h).bind f s

theorem TxPayload.Fits.roundTrips {p : TxPayload} (h : p.Fits) : RoundTrips p := by
  intro s
  cases p with
  | registerParticipant id pType metadata =>
    show (deserialize >>= _).run
      (tag 0 ++ serialize id ++ serialize pType ++ serialize metadata ++ s) = _
    simp only [List.append_assoc, run_tag, run_field, run_string h]
    rfl
  | updateParticipant id metadata =>
    show (deserialize >>= _).run (tag 1 ++ serialize id ++ serialize metadata ++ s) = _
    simp only [List.append_assoc, run_tag, run_field, run_string h]
    rfl
  | deactivateParticipant id =>
    show (deserialize >>= _).run (tag 2 ++ serialize id ++ s) = _
    simp only [List.append_assoc, run_tag, run_field]
    rfl
  | recordSettlement participantId record =>
    show (deserialize >>= _).run (tag 3 ++ serialize participantId ++ serialize record ++ s) = _
    simp only [List.append_assoc, run_tag, run_field]
    rfl
  | recordRating participantId rating success =>
    show (deserialize >>= _).run
      (tag 4 ++ serialize participantId ++ serialize rating ++ serialize success ++ s) = _
    simp only [List.append_assoc, run_tag, run_field]
    rfl
  | createEscrow escrowId buyer seller amount expiresAt =>
    show (deserialize >>= _).run
      (tag 5 ++ serialize escrowId ++ serialize buyer ++ serialize seller ++ serialize amount ++
        serialize expiresAt ++ s) = _
    simp only [List.append_assoc, run_tag, run_field]
    rfl
  | releaseEscrow escrowId evidenceHash =>
    show (deserialize >>= _).run
      (tag 6 ++ serialize escrowId ++ serialize evidenceHash ++ s) = _
    simp only [List.append_assoc, run_tag, run_field]
    rfl
  | refundEscrow escrowId =>
    show (deserialize >>= _).run (tag 7 ++ serialize escrowId ++ s) = _
    simp only [List.append_assoc, run_tag, run_field]
    rfl
  | raiseDispute disputeId escrowId reason evidenceHash =>
    show (deserialize >>= _).run
      (tag 8 ++ serialize disputeId ++ serialize escrowId ++ serialize reason ++
        serialize evidenceHash ++ s) = _
    simp only [List.append_assoc, run_tag, run_field]
    rfl
  | submitEvidence disputeId evidenceHash =>
    show (deserialize >>= _).run
      (tag 9 ++ serialize disputeId ++ serialize evidenceHash ++ s) = _
    simp only [List.append_assoc, run_tag, run_field]
    rfl
  | voteDispute disputeId decision =>
    show (deserialize >>= _).run (tag 10 ++ serialize disputeId ++ serialize decision ++ s) = _
    simp only [List.append_assoc, run_tag, run_field]
    rfl
  | transferRCW receiver amount memo =>
    show (deserialize >>= _).run
      (tag 11 ++ serialize receiver ++ serialize amount ++ serialize memo ++ s) = _
    simp only [List.append_assoc, run_tag, run_field, run_string h]
    rfl
  | spendRCW amount purpose =>
    show (deserialize >>= _).run (tag 12 ++ serialize amount ++ serialize purpose ++ s) = _
    simp only [List.append_assoc, run_tag, run_field, run_string h]
    rfl
  | anchorMerkleRoot batchId merkleRoot entryCount fromEntryId toEntryId =>
    show (deserialize >>= _).run
      (tag 13 ++ serialize batchId ++ serialize merkleRoot ++ serialize entryCount ++
        serialize fromEntryId ++ serialize toEntryId ++ s) = _
    simp only [List.append_assoc, run_tag, run_field]
    rfl

theorem Transaction.Fits.roundTrips {tx : Transaction} (h : tx.Fits) : RoundTrips tx := by
  intro s
  show (deserialize >>= _).run (serialize tx.payload ++ serialize tx.sender ++
    serializeSignature tx.signature ++ serialize tx.timestamp ++ serialize tx.nonce ++ s) = _
  simp only [List.append_assoc, (TxPayload.Fits.roundTrips h).bind, run_field, run_signature]
  rfl

theorem TxsFit.roundTrips {txs : List Transaction} (h : TxsFit txs) : RoundTrips txs :=
  .list h.length fun tx htx => (h.each tx htx).roundTrips

theorem Block.Fits.roundTrips {b : Block} (h : b.Fits) : RoundTrips b := by
  intro s
  have hsigs : RoundTrips b.signatures := .list h.signatures fun sig _ => Codec.roundTrips sig
  show (deserialize >>= _).run
    (serialize b.header ++ serialize b.transactions ++ serialize b.signatures ++ s) = _
  simp only [List.append_assoc, run_field, h.transactions.roundTrips.bind, hsigs.bind]
  rfl

theorem Participant.Fits.roundTrips {p : Participant} (h : p.Fits) : RoundTrips p := by
  intro s
  show (deserialize >>= _).run (serialize p.id ++ serialize p.pType ++ serialize p.metadata ++
    serialize p.totalTx ++ serialize p.successTx ++ serialize p.disputeCount ++
    serialize p.disputeWon ++ serialize p.ratingSum ++ serialize p.ratingCount ++
    serialize p.totalVolume ++ serialize p.totalSettled ++ serialize p.registeredAt ++
    serialize p.lastActivityAt ++ serialize p.isActive ++ s) = _
  simp only [List.append_assoc, run_field, run_string h]
  rfl

theorem Dispute.Fits.roundTrips {d : Dispute} (h : d.Fits) : RoundTrips d := by
  intro s
  have hevidence : RoundTrips d.evidenceHashes := .list h.evidence fun e _ => Codec.roundTrips e
  have hvotes : RoundTrips d.votes := .list h.votes fun v _ => Codec.roundTrips v
  show (deserialize >>= _).run (serialize d.id ++ serialize d.escrowId ++ serialize d.raisedBy ++
    serialize d.reason ++ serialize d.evidenceHashes ++ serialize d.votes ++ serialize d.state ++
    serialize d.resolution ++ serialize d.raisedAt ++ serialize d.resolvedAt ++ s) = _
  simp only [List.append_assoc, run_field, hevidence.bind, hvotes.bind]
  rfl

theorem ConsensusMessage.Fits.roundTrips {msg : ConsensusMessage} (h : msg.Fits) :
    RoundTrips msg := by
  intro s
  cases msg with
  | propose block =>
    show (deserialize >>= _).run (tag 0 ++ serialize block ++ s) = _
    simp only [List.append_assoc, run_tag, (Block.Fits.roundTrips h).bind]
    rfl
  | sign height sig =>
    show (deserialize >>= _).run (tag 1 ++ serialize height ++ serialize sig ++ s) = _
    simp only [List.append_assoc, run_tag, run_field]
    rfl
  | requestTxs =>
    show (deserialize >>= _).run (tag 2 ++ s) = _
    rw [run_tag]
    rfl
  | submitTx tx =>
    show (deserialize >>= _).run (tag 3 ++ serialize tx ++ s) = _
    simp only [List.append_assoc, run_tag, (Transaction.Fits.roundTrips h).bind]
    rfl
  | viewChange height round nodeId =>
    show (deserialize >>= _).run
      (tag 4 ++ serialize height ++ serialize round ++ serialize nodeId ++ s) = _
    simp only [List.append_assoc, run_tag, run_field]
    rfl
  | handshake nodeId publicKey listenAddr =>
    show (deserialize >>= _).run
      (tag 5 ++ serialize nodeId ++ serialize publicKey ++ serialize listenAddr ++ s) = _
    simp only [List.append_assoc, run_tag, run_field, run_string h]
    rfl

/-! ## What the encodings determine -/

/-- `d` accepts no signature field of another length than 64, whatever stands behind the
length; `before` is what `d` reads up to that field. -/
def RejectsLength {α : Type} (d : Decoder α) (before : List UInt8) : Prop :=
  ∀ (n : UInt64) (s : List UInt8), n ≠ 64 → d.Fails (before ++ (serialize n ++ s))

theorem deserializeSignature_rejects : RejectsLength deserializeSignature [] :=
  fun _ s hn => deserializeSignature_fails hn s

theorem nodeSignature_rejects (nodeId : Id) :
    RejectsLength (deserialize : Decoder NodeSignature) (serialize nodeId) := by
  intro n s hn
  obtain ⟨e, he⟩ := (deserializeSignature_fails hn s).bind
    fun signature => return { nodeId, signature : NodeSignature }
  refine ⟨e, ?_⟩
  show (deserialize >>= _).run _ = _
  rw [run_field]
  exact he

theorem transaction_rejects {payload : TxPayload} (h : payload.Fits) (sender : Id) :
    RejectsLength (deserialize : Decoder Transaction) (serialize payload ++ serialize sender) := by
  intro n s hn
  obtain ⟨e, he⟩ := (deserializeSignature_fails hn s).bind fun signature => do
    return { payload, sender, signature, timestamp := ← deserialize, nonce := ← deserialize :
      Transaction }
  refine ⟨e, ?_⟩
  show (deserialize >>= _).run _ = _
  rw [List.append_assoc, h.roundTrips.bind, run_field]
  exact he

theorem txs_injOn : Set.InjOn (serialize : List Transaction → List UInt8) {txs | TxsFit txs} :=
  fun _ h _ h' he => h.roundTrips.eq h'.roundTrips he

theorem header_injective : Function.Injective (serialize : BlockHeader → List UInt8) :=
  Delimited.injective BlockHeader

/-- The hash keeps these inputs apart, and none is hashed to all zeros. -/
structure Crypto.CollisionFree (C : Crypto) (inputs : Set (List UInt8)) : Prop where
  injOn : Set.InjOn C.hash inputs
  ne_empty : ∀ bs ∈ inputs, C.hash bs ≠ emptyHash

/-- `tx_hash` determines the transactions. -/
theorem computeTxHash_inj {C : Crypto} {txs txs' : List Transaction} (h : TxsFit txs)
    (h' : TxsFit txs') (hC : C.CollisionFree {serialize txs, serialize txs'})
    (he : computeTxHash C txs = computeTxHash C txs') : txs = txs' := by
  have hmem : serialize txs ∈ ({serialize txs, serialize txs'} : Set (List UInt8)) := .inl rfl
  have hmem' : serialize txs' ∈ ({serialize txs, serialize txs'} : Set (List UInt8)) := .inr rfl
  unfold computeTxHash at he
  split at he <;> rename_i hnil <;> split at he <;> rename_i hnil'
  · rw [List.isEmpty_iff.1 hnil, List.isEmpty_iff.1 hnil']
  · exact absurd he.symm (hC.ne_empty _ hmem')
  · exact absurd he (hC.ne_empty _ hmem)
  · exact txs_injOn h h' (hC.injOn hmem hmem' he)

/-- **A header that followers sign binds its transactions.** -/
theorem header_binds {C : Crypto} {c c' : Consensus} {b b' : Block} {prev prev' : Hash}
    {sig sig' : NodeSignature} (hs : c.verifyAndSign C b prev = some sig)
    (hs' : c'.verifyAndSign C b' prev' = some sig') (hheader : b.header = b'.header)
    (h : TxsFit b.transactions) (h' : TxsFit b'.transactions)
    (hC : C.CollisionFree {serialize b.transactions, serialize b'.transactions}) :
    b.transactions = b'.transactions := by
  have htx : computeTxHash C b.transactions = b.header.txHash :=
    (verifyAndSign_eq_some.1 hs).1.txHash
  have htx' : computeTxHash C b'.transactions = b'.header.txHash :=
    (verifyAndSign_eq_some.1 hs').1.txHash
  refine computeTxHash_inj h h' hC ?_
  rw [htx, htx', hheader]

/-- **Encodings are faithful**: transactions, blocks and messages round trip, a signature of
another length is rejected where one is read, lists of transactions and headers have
encodings of their own, and so a signed header binds its transactions. -/
theorem codec_faithful (C : Crypto) :
    (∀ tx : Transaction, tx.Fits → fromBytes Transaction (serialize tx) = .ok tx) ∧
    (∀ b : Block, b.Fits → fromBytes Block (serialize b) = .ok b) ∧
    (∀ msg : ConsensusMessage, msg.Fits →
      fromBytes ConsensusMessage (serialize msg) = .ok msg) ∧
    RejectsLength deserializeSignature [] ∧
    (∀ nodeId : Id, RejectsLength (deserialize : Decoder NodeSignature) (serialize nodeId)) ∧
    (∀ (payload : TxPayload) (sender : Id), payload.Fits →
      RejectsLength (deserialize : Decoder Transaction) (serialize payload ++ serialize sender)) ∧
    Set.InjOn (serialize : List Transaction → List UInt8) {txs | TxsFit txs} ∧
    Function.Injective (serialize : BlockHeader → List UInt8) ∧
    ∀ (c c' : Consensus) (b b' : Block) (prev prev' : Hash),
      (c.verifyAndSign C b prev).isSome → (c'.verifyAndSign C b' prev').isSome →
      b.header = b'.header → TxsFit b.transactions → TxsFit b'.transactions →
      C.CollisionFree {serialize b.transactions, serialize b'.transactions} →
      b.transactions = b'.transactions := by
  refine ⟨fun tx h => h.roundTrips.decode, fun b h => h.roundTrips.decode,
    fun msg h => h.roundTrips.decode, deserializeSignature_rejects, nodeSignature_rejects,
    fun payload sender h => transaction_rejects h sender, txs_injOn, header_injective, ?_⟩
  intro c c' b b' prev prev' hs hs' hheader h h' hC
  obtain ⟨sig, hs⟩ := Option.isSome_iff_exists.1 hs
  obtain ⟨sig', hs'⟩ := Option.isSome_iff_exists.1 hs'
  exact header_binds hs hs' hheader h h' hC

end RoutineChain
