import RoutineChain.Proof.Authorization
import RoutineChain.Proof.Disputes
import RoutineChain.Proof.Replication
import RoutineChain.Proof.Settlements
import RoutineChain.Spec.Query

/-!
# What a client reads

A client asks one node, and later the same or another one, that tells a height no lower.

* `later_replayChain`: what blocks leave of the records that were there before them.
* `respond_later`: later records answer every query that the earlier ones answer, and the
  answers fit together.
* `reads_monotonic`: for any two nodes of a network, at any two moments of a run, the second
  node is later if its tip is no lower.
-/

namespace RoutineChain

open EStateM Rpc

/-! ## Later records -/

/-- What is stored under a key stays stored, and moves along `R`. -/
def Table.Kept {V : Type} (R : V → V → Prop) (T T' : Table V) : Prop :=
  ∀ (k : Id) v, T[k]? = some v → ∃ v', T'[k]? = some v' ∧ R v v'

section Kept

variable {V : Type} {R : V → V → Prop} {T T' T'' : Table V}

theorem Table.Kept.of_eq (hR : ∀ v, R v v) (h : T' = T) : Table.Kept R T T' := by
  rintro k v hv
  exact ⟨v, by rw [h, hv], hR v⟩

theorem Table.Kept.trans (hR : ∀ {u v w}, R u v → R v w → R u w) (h : Table.Kept R T T')
    (h' : Table.Kept R T' T'') : Table.Kept R T T'' := by
  intro k v hv
  obtain ⟨v', hv', hvv'⟩ := h k v hv
  obtain ⟨v'', hv'', hvv''⟩ := h' k v' hv'
  exact ⟨v'', hv'', hR hvv' hvv''⟩

/-- One key is written. -/
theorem Table.Kept.insert {k : Id} {v : V} (hR : ∀ v, R v v)
    (hput : ∀ w, T[k]? = some w → R w v) (h : T' = T.insert k v) : Table.Kept R T T' := by
  intro x w hw
  rw [h, Table.get_insert]
  by_cases hx : k = x
  · subst hx
    exact ⟨v, if_pos rfl, hput w hw⟩
  · exact ⟨w, by rw [if_neg hx, hw], hR w⟩

end Kept

/-- The identity is that of the registration, and what speaks for a participant is no less. -/
structure Participant.Grows (p p' : Participant) : Prop extends p.SameIdentity p' where
  successTx : p.successTx ≤ p'.successTx
  disputeWon : p.disputeWon ≤ p'.disputeWon
  totalVolume : p.totalVolume ≤ p'.totalVolume
  totalSettled : p.totalSettled ≤ p'.totalSettled

theorem Participant.Grows.refl (p : Participant) : p.Grows p :=
  ⟨.refl p, UInt64.le_refl _, UInt64.le_refl _, UInt64.le_refl _, UInt64.le_refl _⟩

theorem Participant.Grows.trans {p p' p'' : Participant} (h : p.Grows p') (h' : p'.Grows p'') :
    p.Grows p'' :=
  ⟨h.toSameIdentity.trans h'.toSameIdentity, UInt64.le_trans h.successTx h'.successTx,
    UInt64.le_trans h.disputeWon h'.disputeWon, UInt64.le_trans h.totalVolume h'.totalVolume,
    UInt64.le_trans h.totalSettled h'.totalSettled⟩

/-- The terms stay, and a settled escrow is final. -/
def Escrow.Moved (e e' : Escrow) : Prop := e.SameTerms e' ∧ (e.Settled → e' = e)

theorem Escrow.Moved.refl (e : Escrow) : e.Moved e := ⟨.refl e, fun _ => rfl⟩

theorem Escrow.Moved.trans {e e' e'' : Escrow} (h : e.Moved e') (h' : e'.Moved e'') :
    e.Moved e'' := by
  refine ⟨h.1.trans h'.1, ?_⟩
  intro hs
  have heq := h.2 hs
  rw [← heq] at hs
  rw [h'.2 hs, heq]

/-- **What later records keep of earlier ones.** A settlement can be recorded again and a dispute
raised again under the same id, so of these only the entry stays. -/
structure Records.Later (r r' : Records) : Prop where
  participants : Table.Kept Participant.Grows r.participants r'.participants
  settlements : Table.Kept (fun _ _ => True) r.settlements r'.settlements
  escrows : Table.Kept Escrow.Moved r.escrows r'.escrows
  disputes : Table.Kept (fun _ _ => True) r.disputes r'.disputes
  anchors : Table.Kept Eq r.anchors r'.anchors

theorem Records.Later.refl (r : Records) : r.Later r :=
  ⟨.of_eq .refl rfl, .of_eq (fun _ => trivial) rfl, .of_eq .refl rfl,
    .of_eq (fun _ => trivial) rfl, .of_eq .refl rfl⟩

theorem Records.Later.trans {r r' r'' : Records} (h : r.Later r') (h' : r'.Later r'') :
    r.Later r'' :=
  ⟨h.participants.trans .trans h'.participants,
    h.settlements.trans (fun _ _ => trivial) h'.settlements,
    h.escrows.trans .trans h'.escrows, h.disputes.trans (fun _ _ => trivial) h'.disputes,
    h.anchors.trans .trans h'.anchors⟩

section Step

variable {P : Params} {a : Id} {t : Int64} {r r' : Records} {p : TxPayload} {es : List Event}

theorem le_satAdd (m n : UInt64) : m ≤ satAdd m n := by
  have hm := m.toNat_lt
  rw [UInt64.le_iff_toNat_le, toNat_satAdd]
  omega

theorem Participant.grows_rated (q : Participant) (n : UInt16) (ok : Bool) :
    q.Grows (q.rated n ok t) := by
  have hsame := q.sameProfile_rated n ok t
  have hsuccess : (q.rated n ok t).successTx = q.successTx := (q.rated_counters n ok).1
  have hwon : (q.rated n ok t).disputeWon = q.disputeWon ∧
      (q.rated n ok t).totalVolume = q.totalVolume := by
    unfold Participant.rated
    by_cases hn : n > 0 ∧ n ≤ 500 <;> cases ok <;> simp [hn]
  refine ⟨hsame.toSameIdentity, ?_, ?_, ?_, ?_⟩
  · rw [hsuccess]
    exact UInt64.le_refl _
  · rw [hwon.1]
    exact UInt64.le_refl _
  · rw [hwon.2]
    exact UInt64.le_refl _
  · rw [hsame.totalSettled]
    exact UInt64.le_refl _

/-- A write to a participant takes nothing from it. -/
theorem Participant.Update.grows {q q' : Participant} (h : q.Update p t q') : q.Grows q' := by
  have hle := UInt64.le_refl
  cases h with
  | updated | deactivated | refunded | disputed _ | lost _ =>
    exact ⟨⟨rfl, rfl, rfl⟩, hle _, hle _, hle _, hle _⟩
  | settled _ =>
    exact ⟨⟨rfl, rfl, rfl⟩, le_satAdd _ _, hle _, le_satAdd _ _, le_satAdd _ _⟩
  | rated _ => exact q.grows_rated _ _
  | released => exact ⟨⟨rfl, rfl, rfl⟩, le_satAdd _ _, hle _, hle _, hle _⟩
  | sold => exact ⟨⟨rfl, rfl, rfl⟩, le_satAdd _ _, hle _, le_satAdd _ _, hle _⟩
  | won _ => exact ⟨⟨rfl, rfl, rfl⟩, hle _, le_satAdd _ _, hle _, hle _⟩

theorem Participant.Updates.grows {n : ℕ} {q q' : Participant} (h : q.Updates p t n q') :
    q.Grows q' := by
  induction h with
  | refl _ q => exact .refl q
  | step hu _ ih => exact hu.grows.trans ih

/-- A dispute that is stored stays stored. -/
theorem DisputeChange.isSome {d : Id} {o o' : Option Dispute} (h : DisputeChange P r a t p d o o')
    (ho : o.isSome) : o'.isSome := by
  cases h with
  | same => exact ho
  | _ => rfl

theorem TxPayload.Outcome.later (h : p.Outcome P a t r es r') : r.Later r' := by
  refine ⟨?_, ?_, ?_, ?_, ?_⟩
  · rcases h.participants with hupd | ⟨ty, md, hnew, hins⟩
    · intro x q hq
      have hrel := hupd x
      rw [hq] at hrel
      generalize r'.participants[x]? = o at hrel
      cases hrel with
      | some hu => exact ⟨_, rfl, hu.grows⟩
    · refine .insert .refl ?_ hins
      intro q hq
      rw [hnew] at hq
      cases hq
  · rcases h.settlements with ⟨d, q, -, -, hins, -⟩ | ⟨hsame, -⟩
    · exact .insert (fun _ => trivial) (fun _ _ => trivial) hins
    · exact .of_eq (fun _ => trivial) hsame
  · intro x esc he
    have hchange := h.escrowChange x
    rw [he] at hchange
    exact hchange.kept
  · intro x dis hd
    have hsome := (h.disputeChange x).isSome (by rw [hd]; rfl)
    obtain ⟨dis', hd'⟩ := Option.isSome_iff_exists.1 hsome
    exact ⟨dis', hd', trivial⟩
  · rcases h.anchors with hsame | ⟨b, anc, -, hnew, hins⟩
    · exact .of_eq .refl hsame
    · refine .insert .refl ?_ hins
      intro old hold
      rw [hnew] at hold
      cases hold

/-- **A transaction leads to later records**, where the parties of escrows are registered. -/
theorem Execution.Step.later {x x' : Execution} {tx : Transaction} (h : x.Step P tx t x')
    (hx : x.store.records.PartiesRegistered) : x.store.records.Later x'.store.records := by
  cases h with
  | stale _ => exact .refl _
  | failed _ hout =>
    rw [Store.afterTx_records, hout.eq_of_partiesRegistered hx]
    exact .refl _
  | succeeded _ hout => exact hout.later

end Step

section Replay

variable {C : Crypto} {P : Params} {s s' : Store}

/-- Later, with the parties of escrows registered. -/
def Records.Follows (r r' : Records) : Prop := r.Later r' ∧ r'.PartiesRegistered

theorem follows_execute {r : Records} (tx : Transaction) (t : Int64)
    (h : r.Follows s.records) : r.Follows (after (execute P tx t) s).records := by
  have hstep := execution_step P { store := s } (tx, t)
  have hstore := Execution.execute_store P { store := s } (tx, t)
  rw [← hstore]
  exact ⟨h.1.trans (hstep.later h.2), hstep.partiesRegistered h.2⟩

theorem follows_replayBlock {r : Records} (b : Block) (h : r.Follows s.records) :
    r.Follows (replayBlock C P b s).store.records := by
  have hstep : ∀ (st : Replay) tx, r.Follows st.store.records → True →
      r.Follows (applyTx C P b.header.timestamp st tx).store.records := by
    intro st tx hst _
    rw [applyTx_store]
    split
    · exact follows_execute tx _ hst
    · exact hst
  exact Runs.inv_run (I := fun st : Replay => r.Follows st.store.records) hstep h
    (Runs.along_true _ _)

/-- **Blocks lead to later records.** -/
theorem later_replayChain (hs : s.records.PartiesRegistered) (bs : List Block) :
    s.records.Follows (replayChain C P s bs).records :=
  Runs.inv_run (I := fun s' : Store => s.records.Follows s'.records) (C := fun _ _ => True)
    (fun _ b hs' _ => follows_replayBlock b hs') ⟨.refl _, hs⟩ (Runs.along_true _ _)

end Replay

/-! ## Answers -/

/-- What a trust score shows of a participant that grows. -/
structure Rpc.TrustScoreResponse.Later (r r' : TrustScoreResponse) : Prop where
  participantId : r'.participantId = r.participantId
  registeredAt : r'.registeredAt = r.registeredAt
  successTx : r.successTx ≤ r'.successTx
  totalVolume : r.totalVolume ≤ r'.totalVolume

/-- **An answer that fits to an earlier one**, to the same query. The genesis block is found with
its header. -/
inductive Rpc.Answer.Later : Answer → Answer → Prop
  | status {r r'} (h : r.latestHeight ≤ r'.latestHeight) : Later (.status r) (.status r')
  | block {b b'} (hheader : b'.header = b.header)
      (htxs : b.header.height ≠ 0 → b'.transactions = b.transactions) :
    Later (.block b) (.block b')
  | participant {p p'} (h : p.Grows p') : Later (.participant p) (.participant p')
  | trust {r r'} (h : r.Later r') : Later (.trust r) (.trust r')
  | settlement (s s') : Later (.settlement s) (.settlement s')
  | escrow {e e'} (h : e.Moved e') : Later (.escrow e) (.escrow e')
  | dispute (d d') : Later (.dispute d) (.dispute d')
  | anchor (a) : Later (.anchor a) (.anchor a)
  | balance {r r'} (h : r'.owner = r.owner) : Later (.balance r) (.balance r')

def Rpc.ApiResponse.Later (r r' : ApiResponse Answer) : Prop :=
  Option.Rel Answer.Later r.data r'.data

section Answers

variable {C : Crypto} {s s' : Store} {r : ApiResponse Answer}

/-- A table that is kept answers what it has answered. -/
theorem getRecord_later {α : Type} {R : α → α → Prop} {T T' : Table α} {answer : α → Answer}
    (h : Table.Kept R T T') (hanswer : ∀ {a a'}, R a a' → (answer a).Later (answer a'))
    {hex : String} (hr : (getRecord C T hex).map (.map answer) = .ok r) :
    ∃ r', (getRecord C T' hex).map (.map answer) = .ok r' ∧ r.Later r' := by
  unfold getRecord atId at hr ⊢
  cases hid : hexToId C hex with
  | none =>
    rw [hid] at hr
    cases hr
  | some id =>
    rw [hid] at hr
    cases ha : T[id]? with
    | none =>
      simp only [ha] at hr
      cases hr
    | some a =>
      simp only [ha] at hr
      cases hr
      obtain ⟨a', ha', hR⟩ := h id a ha
      simp only [ha']
      exact ⟨_, rfl, .some (hanswer hR)⟩

/-- A trust score is worked out from the participant. -/
theorem getTrustScore_eq (C : Crypto) (s : Store) (hex : String) :
    (getTrustScore C s hex).map (ApiResponse.map Answer.trust) =
      (getRecord C s.records.participants hex).map
        (ApiResponse.map fun p => .trust (trustScoreOf hex p)) := by
  cases hid : hexToId C hex with
  | none => simp only [getTrustScore, getRecord, atId, hid, Except.map]
  | some id =>
    cases hp : s.records.participants[id]? with
    | none => simp only [getTrustScore, getRecord, atId, hid, hp, Except.map]
    | some p =>
      simp only [getTrustScore, getRecord, atId, hid, hp]
      rfl

theorem trustScoreOf_later (hex : String) {p p' : Participant} (h : p.Grows p') :
    (trustScoreOf hex p).Later (trustScoreOf hex p') :=
  ⟨rfl, h.registeredAt, h.successTx, h.totalVolume⟩

theorem respond_block {height : UInt64} {b : Block} (hb : s.getBlock height = some b) :
    respond C s (.block height) = .ok (.ok (.block b)) := by
  simp only [respond, Rpc.getBlock, hb]
  rfl

/-- **Later records answer again.** -/
theorem respond_later (hrecords : s.records.Later s'.records)
    (htip : s.getLatestHeight ≤ s'.getLatestHeight)
    (hblocks : ∀ height b, s.getBlock height = some b → ∃ b', s'.getBlock height = some b' ∧
      b'.header = b.header ∧ (b.header.height ≠ 0 → b'.transactions = b.transactions))
    {q : Query} (hr : respond C s q = .ok r) : ∃ r', respond C s' q = .ok r' ∧ r.Later r' := by
  cases q with
  | status =>
    cases hr
    exact ⟨_, rfl, .some (.status htip)⟩
  | block height =>
    cases hb : s.getBlock height with
    | none =>
      simp only [respond, Rpc.getBlock, hb] at hr
      cases hr
    | some b =>
      rw [respond_block hb] at hr
      cases hr
      obtain ⟨b', hb', hheader, htxs⟩ := hblocks height b hb
      exact ⟨_, respond_block hb', .some (.block hheader htxs)⟩
  | participant hex => exact getRecord_later hrecords.participants .participant hr
  | trust hex =>
    have hr := (getTrustScore_eq C s hex).symm.trans hr
    obtain ⟨r', hr', hlater⟩ := getRecord_later hrecords.participants
      (fun hgrows => .trust (trustScoreOf_later hex hgrows)) hr
    exact ⟨r', (getTrustScore_eq C s' hex).trans hr', hlater⟩
  | settlement hex => exact getRecord_later hrecords.settlements (fun _ => .settlement _ _) hr
  | escrow hex => exact getRecord_later hrecords.escrows .escrow hr
  | dispute hex => exact getRecord_later hrecords.disputes (fun _ => .dispute _ _) hr
  | anchor hex =>
    refine getRecord_later hrecords.anchors ?_ hr
    rintro a _ rfl
    exact .anchor a
  | balance hex =>
    cases hid : hexToId C hex with
    | none =>
      simp only [respond, Rpc.getBalance, atId, hid] at hr
      cases hr
    | some id =>
      simp only [respond, Rpc.getBalance, atId, hid] at hr
      cases hr
      simp only [respond, Rpc.getBalance, atId, hid]
      exact ⟨_, rfl, .some (.balance rfl)⟩

end Answers

/-! ## Two nodes, two moments -/

section Network

variable {k : ℕ} {C : Crypto} {cfg : Fin k → NodeConfig} {ids : Fin k → Id}
  {keys : Fin k → BitVec 256} {stores : Fin k → Store} {now : Fin k → StartClock} {g : Block}

/-- **Reads are monotonic across replicas.** What a node with nothing pending has answered after
`as`, any node answers after `as'` if its tip is no lower, and the answer fits to the first. -/
theorem reads_monotonic {as as' as'' : List (Fin k × Micro)} {final : Net k}
    (h : Net.Setup C cfg ids keys stores now g)
    (hend : Runs.run (Net.micro C cfg) (.start cfg ids keys stores now) (as ++ as' ++ as'') = final)
    (hparams : ∀ i j, (cfg i).params = (cfg j).params)
    (hstart : ∀ i j, (stores i).SameState (stores j))
    (hparties : ∀ i, (stores i).records.PartiesRegistered)
    (hrun : Runs.Along (Net.micro C cfg) (Net.Replicates C cfg ids keys final)
      (.start cfg ids keys stores now) (as ++ as' ++ as''))
    {i j : Fin k} {first second : Node}
    (hfirst : (Runs.run (Net.micro C cfg) (.start cfg ids keys stores now) as i).node = first)
    (hsecond : (Runs.run (Net.micro C cfg) (.start cfg ids keys stores now) (as ++ as') j).node =
      second)
    (hhash : ∀ b ∈ first.store.chain, ∀ b' ∈ second.store.chain,
      computeTxHash C b.transactions = computeTxHash C b'.transactions →
        b.transactions = b'.transactions)
    (hidle : first.pendingBlock = none)
    (htip : first.store.getLatestHeight ≤ second.store.getLatestHeight)
    (q : Query) {r : ApiResponse Answer} (hr : respond C first.store q = .ok r) :
    ∃ r', respond C second.store q = .ok r' ∧ r.Later r' := by
  subst hfirst hsecond
  have hlater := moment_run h hend hrun
  rw [List.append_assoc] at hend hrun
  have hnow := moment_run h hend hrun
  -- the state of the first node, and from it that of the second one
  have hstate := (hnow.replicas i).state.state
  have hparties' := (later_replayChain (C := C) (P := (cfg i).params) (hparties i)
    ((Runs.run (Net.micro C cfg) (.start cfg ids keys stores now) as i).node.store.chain)).2
  rw [hidle, Option.toList_none, List.append_nil] at hstate
  rw [← hstate.1] at hparties'
  have hahead := replicas_ahead hnow.replicas hlater.replicas hnow.once hnow.voted hlater.voted
    hhash (hparams j i) (hstart i j) hidle htip
  refine respond_later ?_ htip ?_ hr
  · rw [hahead.1]
    exact (later_replayChain hparties' _).1
  · intro height b hb
    have hheight := (hnow.replicas i).state.chain.height height b hb
    have hle := ((hnow.replicas i).state.chain.dense height).1 (by rw [hb]; rfl)
    obtain ⟨b', hb'⟩ := Option.isSome_iff_exists.1
      (((hlater.replicas j).state.chain.dense height).2 (UInt64.le_trans hle htip))
    have hheader := voters_agree (fun j => (hnow.replicas j).voter)
      (fun j => (hlater.replicas j).voter) hnow.once hnow.voted hlater.voted i j height b b' hb hb'
    refine ⟨b', hb', hheader.symm, ?_⟩
    intro h0
    rw [hheight] at h0
    have hsame := replicas_blocks hnow.replicas hlater.replicas hnow.once hnow.voted hlater.voted
      hhash h0 hb hb'
    exact (congrArg Block.transactions hsame).symm

end Network

/-- A follower stores a block, and a client that has read it there finds it on another one, once
this has stored it. -/
theorem reads_monotonic_toy : ∃ first second r r',
    (Runs.run (Net.micro .toy NodeConfig.toyFour) .toyFour (Net.toyProposes 1 0) 0).node =
      first ∧
    (Runs.run (Net.micro .toy NodeConfig.toyFour) .toyFour
      (Net.toyProposes 1 0 ++ Net.toyFollows 2) 2).node = second ∧
    respond .toy first.store (.block 1) = .ok r ∧
    respond .toy second.store (.block 1) = .ok r' ∧ r.Later r' := by
  obtain ⟨first, hfirst⟩ : ∃ n, (Runs.run (Net.micro .toy NodeConfig.toyFour) .toyFour
      (Net.toyProposes 1 0) 0).node = n := ⟨_, rfl⟩
  obtain ⟨second, hsecond⟩ : ∃ n, (Runs.run (Net.micro .toy NodeConfig.toyFour) .toyFour
      (Net.toyProposes 1 0 ++ Net.toyFollows 2) 2).node = n := ⟨_, rfl⟩
  have hstored : (first.store.getBlock 1).isSome := by
    rw [← hfirst]
    decide +kernel
  have hhash : ∀ b ∈ first.store.chain, ∀ b' ∈ second.store.chain,
      computeTxHash .toy b.transactions = computeTxHash .toy b'.transactions →
        b.transactions = b'.transactions := by
    rw [← hfirst, ← hsecond]
    exact hashes_toyFour
  have hidle : first.pendingBlock = none ∧
      first.store.getLatestHeight ≤ second.store.getLatestHeight := by
    rw [← hfirst, ← hsecond]
    decide +kernel
  obtain ⟨b, hb⟩ := Option.isSome_iff_exists.1 hstored
  obtain ⟨r', hr', hlater⟩ := reads_monotonic Net.setup_toyFour rfl NodeConfig.params_toyFour
    (fun _ _ => ⟨rfl, rfl⟩) (fun _ => Records.partiesRegistered_empty) (replicates_toyFour rfl)
    hfirst hsecond hhash hidle.1 hidle.2 (.block 1) (respond_block hb)
  exact ⟨first, second, _, r', hfirst, hsecond, respond_block hb, hr', hlater⟩

end RoutineChain
