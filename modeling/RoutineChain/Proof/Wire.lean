import Mathlib.Algebra.Order.BigOperators.Group.List
import Mathlib.Algebra.Order.Group.Nat
import RoutineChain.Proof.Codec
import RoutineChain.Proof.Voter

/-!
# What the reader of a frame accepts

`send_to_peer` writes a message of any size; `listen` reads 16 MB at most. Nothing bounds
what a leader puts into one block, which is all of the pool that executes.

* `delivered_iff`: a message arrives exactly if its encoding is within the limit.
* `sent_delivered_iff`: all but a proposal of too many bytes of transactions, and a greeting
  with a listen address of nearly 16 MB.
-/

namespace RoutineChain

open Bincode EStateM

/-! ## Sizes -/

/-- The bytes that transactions take in a block. -/
def txBytes (txs : List Transaction) : ℕ := (txs.map fun tx => (serialize tx).length).sum

theorem length_signature (sig : Signature) : (serializeSignature sig).length = 72 := by
  rw [serializeSignature, length_bytes, length_bitVec]

theorem length_nodeSignature (sig : NodeSignature) : (serialize sig).length = 104 := by
  show (serialize sig.nodeId ++ serializeSignature sig.signature).length = _
  rw [List.length_append, length_bitVec, length_signature]

theorem length_transaction (tx : Transaction) :
    (serialize tx).length = (serialize tx.payload).length + 120 := by
  show (serialize tx.payload ++ serialize tx.sender ++ serializeSignature tx.signature ++
    serialize tx.timestamp ++ serialize tx.nonce).length = _
  simp only [List.length_append, length_bitVec, length_signature, length_int64, length_uint64]

theorem length_block (b : Block) : (serialize b).length =
    164 + txBytes b.transactions + 104 * b.signatures.length := by
  have hsigs : (b.signatures.map fun sig => (serialize sig).length).sum =
      104 * b.signatures.length := by
    simp only [length_nodeSignature, List.map_const', List.sum_replicate_nat, Nat.mul_comm]
  show (serialize b.header ++ serialize b.transactions ++ serialize b.signatures).length = _
  rw [List.length_append, List.length_append, length_header, length_list, length_list, hsigs,
    txBytes]
  omega

/-! ## Short encodings are of values that fit -/

theorem TxPayload.fits_of_length {p : TxPayload} (h : (serialize p).length < 2 ^ 64) : p.Fits := by
  have htail : ∀ {before : List UInt8} {t : String},
      (before ++ serialize t).length < 2 ^ 64 → t.utf8ByteSize < 2 ^ 64 := by
    intro before t hlen
    rw [List.length_append, length_string] at hlen
    omega
  cases p
  case registerParticipant => exact htail h
  case updateParticipant => exact htail h
  case transferRCW => exact htail h
  case spendRCW => exact htail h
  all_goals trivial

theorem Transaction.fits_of_length {tx : Transaction} (h : (serialize tx).length < 2 ^ 64) :
    tx.Fits := by
  rw [length_transaction] at h
  exact TxPayload.fits_of_length (by omega)

theorem txsFit_of_txBytes {txs : List Transaction} (h : txBytes txs < 2 ^ 64) : TxsFit txs := by
  have hone : ∀ k ∈ txs.map fun tx => (serialize tx).length, 1 ≤ k := by
    intro k hk
    obtain ⟨tx, -, rfl⟩ := List.mem_map.1 hk
    rw [length_transaction]
    omega
  have hcount : txs.length ≤ txBytes txs := by
    have hsum := List.length_le_sum_of_one_le _ hone
    rwa [List.length_map] at hsum
  refine ⟨by omega, fun tx htx => Transaction.fits_of_length ?_⟩
  have hle : (serialize tx).length ≤ txBytes txs :=
    List.le_sum_of_mem (List.mem_map_of_mem htx)
  omega

theorem Block.fits_of_length {b : Block} (h : (serialize b).length < 2 ^ 64) : b.Fits := by
  rw [length_block] at h
  exact ⟨txsFit_of_txBytes (by omega), by omega⟩

theorem ConsensusMessage.fits_of_length {msg : ConsensusMessage}
    (h : (serialize msg).length < 2 ^ 64) : msg.Fits := by
  have htail : ∀ {before after : List UInt8}, (before ++ after).length < 2 ^ 64 →
      after.length < 2 ^ 64 := by
    intro before after hlen
    rw [List.length_append] at hlen
    omega
  cases msg
  case propose block => exact Block.fits_of_length (htail h)
  case submitTx tx => exact Transaction.fits_of_length (htail h)
  case handshake nodeId publicKey listenAddr =>
    have haddr : (serialize listenAddr).length < 2 ^ 64 := htail h
    rw [length_string] at haddr
    show listenAddr.utf8ByteSize < 2 ^ 64
    omega
  all_goals trivial

/-! ## One frame -/

/-- The frame of a message arrives: its length is the one in front of it, and the reader
hands on the message. -/
structure Delivered (msg : ConsensusMessage) : Prop where
  lenPrefix : (lenPrefix (serialize msg)).toNat = (serialize msg).length
  read : listen (sendToPeer msg) = some (msg.peerId, msg)

theorem leNat_lenPrefix (data : List UInt8) :
    leNat (leBytes 4 (lenPrefix data).toNat) = (lenPrefix data).toNat :=
  leNat_leBytes (lenPrefix data).toNat_lt

theorem readExact_append {n : ℕ} {bs : List UInt8} (hn : bs.length = n) (s : List UInt8) :
    readExact n (bs ++ s) = .ok (bs, s) := by
  subst hn
  have henough : ¬ (bs ++ s).length < bs.length := by
    rw [List.length_append]
    omega
  rw [readExact, if_neg henough, List.take_left, List.drop_left]

/-- The reader looks at the length first. -/
theorem readFrame_sendToPeer (msg : ConsensusMessage) : readFrame (sendToPeer msg) =
    if (lenPrefix (serialize msg)).toNat > maxMessageLen then .error .oversizedMessage
    else (·.1) <$> readExact (lenPrefix (serialize msg)).toNat (serialize msg) := by
  have hlen : (leBytes 4 (lenPrefix (serialize msg)).toNat).reverse.length = 4 := by
    rw [List.length_reverse, length_leBytes]
  rw [readFrame, sendToPeer]
  simp only [readExact_append hlen, bind, Except.bind, List.reverse_reverse, leNat_lenPrefix]
  split
  case isTrue => rfl
  case isFalse =>
    cases readExact (lenPrefix (serialize msg)).toNat (serialize msg) <;> rfl

/-- **A message arrives exactly if its encoding is within the limit of the reader.** -/
theorem delivered_iff {msg : ConsensusMessage} :
    Delivered msg ↔ (serialize msg).length ≤ maxMessageLen := by
  constructor
  · intro h
    by_contra hlong
    have hread := h.read
    rw [listen, readFrame_sendToPeer, h.lenPrefix, if_pos (by omega)] at hread
    cases hread
  · intro hle
    have hmax : maxMessageLen = 16777216 := rfl
    have hlen : (lenPrefix (serialize msg)).toNat = (serialize msg).length :=
      UInt32.toNat_ofNat_of_lt' (show _ < 2 ^ 32 by omega)
    have hread : readExact (serialize msg).length (serialize msg) = .ok (serialize msg, []) := by
      have happ := readExact_append (n := (serialize msg).length) rfl []
      rwa [List.append_nil] at happ
    have hfits : msg.Fits := ConsensusMessage.fits_of_length (by omega)
    refine ⟨hlen, ?_⟩
    have hframe : readFrame (sendToPeer msg) = .ok (serialize msg) := by
      rw [readFrame_sendToPeer, hlen, if_neg (by omega), hread]
      rfl
    simp only [listen, hframe, hfits.roundTrips.decode]

/-! ## What a node sends -/

variable {C : Crypto} {cfg : NodeConfig} {n : Node} {msg : ConsensusMessage}

/-- Within the limit, for a message of a node: a proposal carries one signature, and a
greeting the configured address. -/
def ConsensusMessage.Light (cfg : NodeConfig) : ConsensusMessage → Prop
  | .propose block => txBytes block.transactions ≤ maxMessageLen - 272
  | .handshake _ _ _ => cfg.listenAddress.utf8ByteSize ≤ maxMessageLen - 76
  | _ => True

theorem light_iff {es : List Effect} (h : n.Sends C cfg es msg) :
    (serialize msg).length ≤ maxMessageLen ↔ msg.Light cfg := by
  have hmax : maxMessageLen = 16777216 := rfl
  cases h with
  | @signature b h =>
    have hlen : (serialize (ConsensusMessage.sign b.header.height
        (n.cons.signHeader C b.header))).length = 116 := by
      show (tag 1 ++ serialize b.header.height ++
        serialize (n.cons.signHeader C b.header)).length = _
      simp only [List.length_append, length_tag, length_uint64, length_nodeSignature]
    rw [hlen]
    exact ⟨fun _ => trivial, fun _ => by omega⟩
  | greeting =>
    have hlen : (serialize (ConsensusMessage.handshake n.cons.nodeId n.cons.nodeId
        cfg.listenAddress)).length = 76 + cfg.listenAddress.utf8ByteSize := by
      show (tag 5 ++ serialize n.cons.nodeId ++ serialize n.cons.nodeId ++
        serialize cfg.listenAddress).length = _
      simp only [List.length_append, length_tag, length_bitVec, length_string]
      omega
    rw [hlen]
    show _ ↔ cfg.listenAddress.utf8ByteSize ≤ maxMessageLen - 76
    omega
  | vote height round =>
    have hlen : (serialize (ConsensusMessage.viewChange height round n.cons.nodeId)).length =
        48 := by
      show (tag 4 ++ serialize height ++ serialize round ++ serialize n.cons.nodeId).length = _
      simp only [List.length_append, length_tag, length_uint64, length_uint32, length_bitVec]
    rw [hlen]
    exact ⟨fun _ => trivial, fun _ => by omega⟩
  | @proposal prev t hp =>
    have hlen : (serialize (ConsensusMessage.propose (n.block C cfg.params prev t))).length =
        272 + txBytes (n.block C cfg.params prev t).transactions := by
      show (tag 0 ++ serialize (n.block C cfg.params prev t)).length = _
      rw [List.length_append, length_tag, length_block]
      show 4 + (164 + _ + 104 * 1) = _
      omega
    rw [hlen]
    show _ ↔ txBytes (n.block C cfg.params prev t).transactions ≤ maxMessageLen - 272
    omega

/-- What a node has sent since it was set up, it sent in some step. -/
theorem sends_run {id : Id} {key : BitVec 256} {store : Store} {now : StartClock}
    {ms : List Micro}
    (h : msg ∈ sentMessages (Runs.run (Process.micro C cfg) (.start cfg id key store now) ms).log) :
    ∃ n es, Node.Sends C cfg n es msg := by
  obtain ⟨e, he, hmsg⟩ := mem_sentMessages.1 h
  refine (Process.inv_run (f := fun e => e) (N := fun _ => True) (D := fun _ _ => True)
    (E := fun e => ∀ msg, e.message? = some msg → ∃ n es, Node.Sends C cfg n es msg)
    ?_ trivial ?_ (Runs.along_true _ _)).2 e he msg hmsg
  · intro n m out hs _ _
    refine ⟨trivial, fun e he msg hmsg => ⟨n, out.2, ?_⟩⟩
    exact sends_step hs msg (mem_sentMessages.2 ⟨e, he, hmsg⟩)
  · intro e he msg hmsg
    rw [mem_log_start he] at hmsg
    cases hmsg
    exact ⟨(Process.start cfg id key store now).node, [], .greeting⟩

/-- **Whatever a node sends can be read**, except a proposal whose transactions take more than
16 MB less its 272 other bytes, and a greeting with an address of nearly that length. A leader's
proposal holds whatever of the pool executes. -/
theorem sent_delivered_iff (C : Crypto) (cfg : NodeConfig) :
    (∀ (id : Id) (key : BitVec 256) (store : Store) (now : StartClock) (inps : List Input),
      ∀ msg ∈ sentMessages
        (Runs.run (Process.iterate C cfg) (.start cfg id key store now) inps).log,
        Delivered msg ↔ msg.Light cfg) ∧
    ∀ (n : Node) (t t' : Int64) (b : Block),
      .broadcast (.propose b) ∈ (n.produce C cfg t t').2 →
        (Delivered (.propose b) ↔
          txBytes (leaderExecute cfg.params t n.cons.pendingTxs n.store).validTxs ≤
            maxMessageLen - 272) := by
  constructor
  · intro id key store now inps msg hmsg
    rw [Process.run_iterate] at hmsg
    obtain ⟨n, es, hsends⟩ := sends_run hmsg
    rw [delivered_iff, light_iff hsends]
  · intro n t t' b hb
    obtain ⟨prev, hp, rfl⟩ := produces_of_propose hb
    have hsends : n.Sends C cfg [] (.propose (n.block C cfg.params prev t)) := .proposal hp
    rw [delivered_iff, light_iff hsends]
    rfl

/-! ## A proposal that nobody can read -/

/-- A leader that runs its pool proposes what succeeded. -/
theorem propose_of_produces {prev : Block} {t : Int64} (t' : Int64)
    (hp : n.Produces cfg.params prev t)
    (hv : (leaderExecute cfg.params t n.cons.pendingTxs n.store).validTxs ≠ [])
    (hc : 0 < n.cons.peerCount) :
    .broadcast (.propose (n.block C cfg.params prev t)) ∈ (n.produce C cfg t t').2 := by
  have hpool : n.cons.hasPendingTxs := by
    unfold Consensus.hasPendingTxs
    cases hnil : n.cons.pendingTxs with
    | nil =>
      rw [hnil] at hv
      exact absurd rfl hv
    | cons => rfl
  have hguard : ¬ (!n.cons.isLeader (n.store.getLatestHeight + 1) || !n.cons.hasPendingTxs) := by
    rw [hp.leads, hpool]
    decide
  have hproposed : ∀ n' : Node, n'.cons.peerCount = n.cons.peerCount → ∀ b : Block,
      .broadcast (.propose b) ∈ (Node.propose C n n' b t').2 := by
    intro n' hn' b
    unfold Node.propose
    rw [if_pos (hn'.symm ▸ hc)]
    simp only
    split <;> simp
  unfold Node.produce
  simp only [hp.idle, Option.isSome_none, Bool.false_eq_true, if_false, if_neg hguard, hp.prev,
    Consensus.drainPendingTxs, List.isEmpty_iff, if_neg hv]
  refine List.mem_append_right _ (hproposed _ ?_ _)
  rfl

/-- The registration of a participant with this metadata. -/
def Transaction.toyWith (metadata : String) : Transaction :=
  Transaction.toy 1 1 (.registerParticipant 1 .seller metadata)

/-- A text of this many bytes. -/
def longText : ℕ → String
  | 0 => ""
  | k + 1 => longText k ++ "a"

theorem utf8ByteSize_longText (k : ℕ) : (longText k).utf8ByteSize = k := by
  induction k with
  | zero => rfl
  | succ k ih =>
    rw [longText, String.utf8ByteSize_append, ih]
    rfl

theorem length_toyWith (metadata : String) :
    (serialize (Transaction.toyWith metadata)).length = 168 + metadata.utf8ByteSize := by
  have hpayload : (serialize (Transaction.toyWith metadata).payload).length =
      48 + metadata.utf8ByteSize := by
    show (tag 0 ++ serialize (1 : Id) ++ tag 0 ++ serialize metadata).length = _
    simp only [List.length_append, length_tag, length_bitVec, length_string]
    omega
  rw [length_transaction, hpayload]
  omega

/-- Node 2, with a pool of one registration. -/
def Node.toyPool (metadata : String) : Node :=
  { Process.toyLeader.node with
    cons := { Process.toyLeader.node.cons with pendingTxs := [.toyWith metadata] } }

/-- The registration reaches node 2. -/
def Input.toyWith (metadata : String) : Input := ⟨[], [.submitTx (.toyWith metadata)], .at 1000⟩

theorem Node.run_toyWith (metadata : String) :
    (Runs.run (Process.micro .toy (.toy [1, 3])) .toyLeader
      [.recv (.submitTx (.toyWith metadata)), .finalize 1000 1000, .feed,
        .viewChange 1000 1000]).node = .toyPool metadata := by
  have hrecv : Process.toyLeader.node.recv .toy (.toy [1, 3]) (.submitTx (.toyWith metadata)) =
      ({ Process.toyLeader.node with incomingTxs := [.toyWith metadata] }, []) := rfl
  have hfinalize : ({ Process.toyLeader.node with incomingTxs := [.toyWith metadata] } :
      Node).finalize .toy (.toy [1, 3]) 1000 1000 =
      ({ Process.toyLeader.node with incomingTxs := [.toyWith metadata] }, []) := rfl
  have hfeed : ({ Process.toyLeader.node with incomingTxs := [.toyWith metadata] } :
      Node).feed.1 = .toyPool metadata := rfl
  have hearly : ¬ 1000 - (Node.toyPool metadata).lastBlockTimeMs >
      (NodeConfig.toy [1, 3]).viewChangeTimeoutMs.toInt64 := by
    show ¬ (1000 : Int64) - 0 > (5000 : UInt64).toInt64
    decide
  have hview : (Node.toyPool metadata).viewChange (.toy [1, 3]) 1000 1000 =
      (.toyPool metadata, []) := by
    unfold Node.viewChange
    rw [if_neg hearly]
    rfl
  simp only [Runs.run_cons, Runs.run_nil, Process.micro, Node.micro, hrecv, hfinalize, hfeed,
    hview]

theorem Node.produces_toyPool (metadata : String) :
    (Node.toyPool metadata).Produces .default (.genesis 0 1) 1000 where
  idle := rfl
  leads := (by decide +kernel : Process.toyLeader.node.cons.isLeader
    (Process.toyLeader.node.store.getLatestHeight + 1))
  prev := (by decide +kernel : Process.toyLeader.node.store.getBlock
    (Process.toyLeader.node.store.getLatestHeight + 1 - 1) = some (.genesis 0 1))

theorem Node.validTxs_toyPool (metadata : String) : (leaderExecute .default 1000
    (Node.toyPool metadata).cons.pendingTxs (Node.toyPool metadata).store).validTxs =
      [.toyWith metadata] := by
  have hfresh : (Transaction.toyWith metadata).Fresh (Node.toyPool metadata).store :=
    (by decide +kernel : Process.toyLeader.node.store.getNonce 1 < 1)
  have hnew : 1#256 ∉ (Node.toyPool metadata).store.records.participants :=
    (by decide +kernel : 1#256 ∉ Process.toyLeader.node.store.records.participants)
  have hrun : isOk ((Transaction.toyWith metadata).exec .default 1000)
      (Node.toyPool metadata).store.records := by
    show isOk (Participant.register 1 1 .seller metadata 1000) _
    simp [Participant.register, isOk, hnew]
  show (leaderExecute .default 1000 [.toyWith metadata] _).validTxs = _
  rw [leaderExecute_validTxs, validOf, if_pos (isOk_execute.2 ⟨hfresh, hrun⟩), validOf]

/-- Node 2 proposes the registration. -/
theorem Input.proposes_toyWith (metadata : String) : ∃ b, b.transactions = [.toyWith metadata] ∧
    .propose b ∈ sentMessages
      (Runs.run (Process.iterate .toy (.toy [1, 3])) .toyLeader [.toyWith metadata]).log := by
  have hvalid := Node.validTxs_toyPool metadata
  have hpeers : 0 < (Node.toyPool metadata).cons.peerCount := Nat.zero_lt_two
  let b := (Node.toyPool metadata).block .toy .default (.genesis 0 1) 1000
  have hsent : .broadcast (.propose b) ∈
      ((Node.toyPool metadata).produce .toy (.toy [1, 3]) 1000 1000).2 := by
    refine propose_of_produces 1000 (Node.produces_toyPool metadata) ?_ hpeers
    exact hvalid ▸ List.cons_ne_nil _ _
  refine ⟨b, hvalid, mem_sentMessages.2 ⟨.broadcast (.propose b), ?_, rfl⟩⟩
  have hmicros : microsOf [.toyWith metadata] =
      [.recv (.submitTx (.toyWith metadata)), .finalize 1000 1000, .feed,
        .viewChange 1000 1000] ++ [.produce 1000 1000] := rfl
  rw [Process.run_iterate, hmicros, Runs.run_append, Runs.run_cons, Runs.run_nil, Process.micro,
    Node.run_toyWith]
  exact List.mem_append_right _ hsent

/-- **A registration that node 2 can read makes a block that nobody can.** -/
theorem sent_delivered_fails : ¬ ∀ inps : List Input,
    (∀ inp ∈ inps, ∀ msg ∈ inp.msgs, Delivered msg) →
    ∀ msg ∈ sentMessages
      (Runs.run (Process.iterate .toy (.toy [1, 3])) .toyLeader inps).log, Delivered msg := by
  intro h
  have hmax : maxMessageLen = 16777216 := rfl
  have hsize := utf8ByteSize_longText 16776900
  -- The text stays a variable: nothing is to write it out.
  generalize longText 16776900 = metadata at hsize
  obtain ⟨b, htxs, hb⟩ := Input.proposes_toyWith metadata
  have hread : Delivered (.submitTx (.toyWith metadata)) := by
    rw [delivered_iff]
    show (tag 3 ++ serialize (Transaction.toyWith metadata)).length ≤ _
    rw [List.length_append, length_tag, length_toyWith]
    omega
  have hlost : Delivered (.propose b) := by
    refine h [.toyWith metadata] ?_ _ hb
    intro inp hinp msg hmsg
    rw [List.mem_singleton.1 hinp] at hmsg
    rw [List.mem_singleton.1 hmsg]
    exact hread
  rw [delivered_iff] at hlost
  have hlen : (serialize (ConsensusMessage.propose b)).length =
      4 + (164 + txBytes b.transactions + 104 * b.signatures.length) := by
    show (tag 0 ++ serialize b).length = _
    rw [List.length_append, length_tag, length_block]
  have hbytes : txBytes b.transactions = 168 + 16776900 := by
    rw [htxs, txBytes, List.map_singleton, List.sum_singleton, length_toyWith, hsize]
  omega

end RoutineChain
