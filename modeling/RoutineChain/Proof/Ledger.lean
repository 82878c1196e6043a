import RoutineChain.Lib.SharedLog
import RoutineChain.Proof.Byzantine
import RoutineChain.Proof.Replication

/-!
# One append-only ledger

What the chain is for: the nodes keep one ledger, to which blocks are only appended, and each of
them holds a part of it from the start. The network refines this `SharedLog`: the ledger is the
longest chain that a node holds, and what a node does reads its next block or appends one.

* `Net.ledger`: the ledger of a network, over the headers above the genesis block.
* `headers_step`: one step of a node adds one header to its chain at most.
* `one_ledger`: in a run with crashes and with validators that do not follow the code, every
  step of a node is a step of it at the ledger, and the chain of a node is what it has seen.
-/

namespace RoutineChain

variable {C : Crypto} {s s' : Store}

/-- The headers of the chain of a store, from height one. -/
def Store.headers (s : Store) : List BlockHeader := s.chain.map (·.header)

theorem ChainOK.length_headers (hs : ChainOK C s) :
    s.headers.length = s.getLatestHeight.toNat := by
  rw [Store.headers, List.length_map, hs.length_chain]

theorem Store.SameChain.headers (h : s.SameChain s') : s.headers = s'.headers := by
  unfold Store.headers
  rw [h.chain]

/-- The lower one of two chains with the same headers is the start of the other. -/
theorem prefix_headers (hs : ChainOK C s) (hs' : ChainOK C s')
    (hle : s.getLatestHeight ≤ s'.getLatestHeight)
    (hagree : ∀ h b b', s.getBlock h = some b → s'.getBlock h = some b' →
      b.header = b'.header) : s.headers <+: s'.headers := by
  have htake := chain_prefix (f := (·.header)) hs hs' hle fun h _ => hagree h
  rw [List.map_take] at htake
  rw [Store.headers, ← htake]
  exact List.take_prefix _ _

/-! ## One node -/

section Node

variable {cfg : NodeConfig} {n : Node} {m : Micro} {out : Node × List Effect}

/-- A linked block is one above the tip at most. -/
theorem Linked.height_le {b : Block} (h : Linked C s b) (hs : ChainOK C s) :
    b.header.height.toNat ≤ s.getLatestHeight.toNat + 1 := by
  obtain ⟨h0, prev, hprev, -⟩ := h
  have hpred := toNat_pred h0
  have hle := UInt64.le_iff_toNat_le.1 ((hs.dense _).1 (by rw [hprev]; rfl))
  omega

/-- **One step raises the tip by one at most.** -/
theorem tip_step (hs : n.Step C cfg m out) (h : NodeChain C n) (hm : NoOverwrite C n m) :
    out.1.store.getLatestHeight.toNat ≤ n.store.getLatestHeight.toNat + 1 := by
  cases hs with
  | finalized t t' hp hf =>
    rw [Store.putBlock_latest]
    exact (h.pending _ hp).height_le h.chain
  | applied hp hs hr =>
    rw [Store.putBlock_latest]
    exact (signProposal_spec hs).1.linked.height_le h.chain
  | @diverged b rest sig hp hs hr =>
    rw [← (sameChain_replayBlock (C := C) (P := cfg.params) b n.store).getLatestHeight]
    exact Nat.le_succ _
  | @rejectedAll prev t t' hp hv | @proposed prev t t' hp hv hc hf =>
    show (n.ran cfg.params t).store.getLatestHeight.toNat ≤ _
    rw [← (sameChain_ran cfg.params n t).getLatestHeight]
    exact Nat.le_succ _
  | @committed prev t t' hp hv hc hf | @solo prev t t' hp hv hc =>
    rw [Store.putBlock_latest]
    exact (hp.linked hm).height_le h.chain
  | _ => exact Nat.le_succ _

/-- **One step adds one header to the chain at most.** -/
theorem headers_step (hs : n.Step C cfg m out) (h : NodeChain C n) (hm : NoOverwrite C n m) :
    out.1.store.headers = n.store.headers ∨
      ∃ H, out.1.store.headers = n.store.headers ++ [H] := by
  obtain ⟨hchain, hext⟩ := nodeChain_step hs h hm
  have htip := tip_step hs h hm
  have hpre : n.store.headers <+: out.1.store.headers := by
    refine prefix_headers h.chain hchain.chain hext.tip ?_
    intro height b b' hb hb'
    obtain ⟨b'', hb'', heq⟩ := hext.header height b hb
    rw [hb', Option.some_inj] at hb''
    rw [hb'', heq]
  obtain ⟨rest, hrest⟩ := hpre
  have hlen := congrArg List.length hrest
  rw [List.length_append, h.chain.length_headers, hchain.chain.length_headers] at hlen
  have hone : rest.length ≤ 1 := by omega
  rw [← hrest]
  rcases rest with _ | ⟨H, rest⟩
  · exact .inl (List.append_nil _)
  · have hnil : rest = [] := by
      rw [List.length_cons] at hone
      exact List.length_eq_zero_iff.1 (by omega)
    exact .inr ⟨H, by rw [hnil]⟩

/-- A stop leaves the chain, and a step adds one header to it at most. -/
theorem headers_act {p : Process} {a : Act} (h : NodeChain C p.node)
    (ha : p.LivesOn C cfg a) :
    (p.act C cfg a).node.store.headers = p.node.store.headers ∨
      ∃ H, (p.act C cfg a).node.store.headers = p.node.store.headers ++ [H] := by
  cases a with
  | step m => exact headers_step (micro_step p.node m) h (ha.step m rfl)
  | stop m left done now =>
    have hsame := ha.stop m left done now rfl
    have hstore : (p.restart cfg left done now).node.store = left :=
      start_store (h.chain.of_sameChain hsame) _ _ _
    left
    rw [show (p.act C cfg (.stop m left done now)).node.store = left from hstore, hsame.headers]

end Node

/-! ## The network -/

variable {k f : ℕ} {cfg : Fin k → NodeConfig} {ids : Fin k → Id} {byz : Fin f → Id}
  {keys : Fin k → BitVec 256} {stores : Fin k → Store} {now : Fin k → StartClock} {g : Block}

/-- The headers of the chain of each node. -/
def Net.headers (net : Net k) (i : Fin k) : List BlockHeader := (net i).node.store.headers

/-- The ledger of a network: the chains of the nodes are views of it. -/
def Net.ledger (net : Net k) : SharedLog (Fin k) BlockHeader := .ofViews net.headers

/-- A run of the network is one of a shared log, up to a first moment and on to a second one. -/
structure Net.KeepsLedger (C : Crypto) (cfg : Fin k → NodeConfig) (net : Net k)
    (as as' : List (Fin k × Act)) : Prop where
  empty : net.ledger.log = []
  steps : Runs.Along (Net.act C cfg)
    (fun net a => SharedLog.Step a.1 net.ledger (net.act C cfg a).ledger) net (as ++ as')
  views : ∀ i, (Runs.run (Net.act C cfg) net as).ledger.view i =
    (Runs.run (Net.act C cfg) net as).headers i
  comparable : ∀ i j,
    (Runs.run (Net.act C cfg) net as).headers i <+:
        (Runs.run (Net.act C cfg) net (as ++ as')).headers j ∨
      (Runs.run (Net.act C cfg) net (as ++ as')).headers j <+:
        (Runs.run (Net.act C cfg) net as).headers i

/-- The chains of loyal nodes are views of one ledger. -/
theorem loyals_consistent {net final : Net k} {H : BlockHeader}
    (hall : ∀ j, Loyal C ids byz H net.Backs final.Backs j (net j))
    (hunique : ∀ j, SignsOnce (final j).log)
    (hvoted : ∀ j H, net.Voted j H → final.Voted j H) : SharedLog.Consistent net.headers := by
  have hagree := loyals_agree hall hall hunique hvoted hvoted
  intro i j
  rcases UInt64.le_total (net i).node.store.getLatestHeight (net j).node.store.getLatestHeight with
    hle | hle
  · exact .inl (prefix_headers (hall i).node.chain (hall j).node.chain hle (hagree i j))
  · exact .inr (prefix_headers (hall j).node.chain (hall i).node.chain hle (hagree j i))

/-- **What a node does is a step of it at the ledger**, if the chains are views of one before
and after it. -/
theorem ledger_act {net : Net k} {final : Net k} {H : BlockHeader} {a : Fin k × Act}
    (hall : ∀ j, Loyal C ids byz H net.Backs final.Backs j (net j))
    (ha : Net.Endures C cfg ids byz final net a) (hviews : SharedLog.Consistent net.headers)
    (hviews' : SharedLog.Consistent (net.act C cfg a).headers) :
    SharedLog.Step a.1 net.ledger (net.act C cfg a).ledger := by
  refine SharedLog.step_ofViews hviews hviews' ?_ ?_
  · intro j hj
    unfold Net.headers
    rw [show net.act C cfg a j = net j from Function.update_of_ne hj ..]
  · have hlives : (net a.1).LivesOn C (cfg a.1) a.2 := by
      obtain ⟨i, act⟩ := a
      cases act with
      | step m => exact livesOn_step ha.votes.1
      | stop m left done t => exact ha.lives
    unfold Net.headers
    rw [show net.act C cfg a a.1 = (net a.1).act C (cfg a.1) a.2 from Function.update_self ..]
    exact headers_act (hall a.1).node.toNodeChain hlives

/-- At the start the ledger is empty: nobody has a block above the genesis block. -/
theorem ledger_start (h : Net.Besieged C cfg ids byz keys stores now g) :
    (Net.start cfg ids keys stores now).ledger.log = [] := by
  have hnil : ∀ j, (Net.start cfg ids keys stores now).headers j = [] := by
    intro j
    have hloyal := loyals_start h j (fun _ _ => True) fun _ _ => True
    have hstore : (Net.start cfg ids keys stores now j).node.store = stores j :=
      start_store (h.chain j) _ _ _
    have hlen := hloyal.node.chain.length_headers
    rw [hstore, h.tip j] at hlen
    unfold Net.headers
    rw [hstore]
    exact List.length_eq_zero_iff.1 hlen
  rcases SharedLog.log_ofViews (Net.start cfg ids keys stores now).headers with hlog | ⟨j, hj⟩
  · exact hlog
  · exact hj.trans (hnil j)

/-- **One append-only ledger.** In a run with crashes, and with validators that do not follow the
code, every step of a node reads the next header of one ledger, appends one to it or leaves it;
what a node holds is what it has seen of it; and what two nodes hold at two moments is the same
as far as it goes. -/
theorem one_ledger {as as' as'' : List (Fin k × Act)} {final : Net k}
    (h : Net.Besieged C cfg ids byz keys stores now g)
    (hend : Runs.run (Net.act C cfg) (.start cfg ids keys stores now) (as ++ as' ++ as'') = final)
    (hrun : Runs.Along (Net.act C cfg) (Net.Endures C cfg ids byz final)
      (.start cfg ids keys stores now) (as ++ as' ++ as'')) :
    Net.KeepsLedger C cfg (.start cfg ids keys stores now) as as' := by
  have hlast := steady_run h hrun
  rw [hend] at hlast
  -- At every moment of the run the chains are views of one ledger.
  have hviews : ∀ l, l <+: as ++ as' ++ as'' →
      SharedLog.Consistent
        (Runs.run (Net.act C cfg) (.start cfg ids keys stores now) l).headers := by
    intro l hl
    have hall := steady_run h (hrun.initial hl)
    obtain ⟨rest, hrest⟩ := hl
    refine loyals_consistent (fun j => (hall j).toLoyal) (fun j => (hlast j).unique) ?_
    intro j H hH
    rw [← hend, ← hrest]
    exact Net.voted_acts l rest j H hH
  have hpart : as ++ as' <+: as ++ as' ++ as'' := List.prefix_append _ _
  have hsteps : Runs.Along (Net.act C cfg)
      (fun net a => SharedLog.Step a.1 net.ledger (net.act C cfg a).ledger)
      (.start cfg ids keys stores now) (as ++ as') := by
    refine Runs.along_iff_prefix.2 ?_
    intro l a hl
    have hstep := Runs.along_iff_prefix.1 hrun l a (hl.trans hpart)
    have hbefore : l <+: as ++ as' ++ as'' := ((List.prefix_append l [a]).trans hl).trans hpart
    have hall := steady_run h (hrun.initial hbefore)
    have hafter := hviews _ (hl.trans hpart)
    rw [Runs.run_append] at hafter
    exact ledger_act (fun j => (hall j).toLoyal) hstep (hviews l hbefore) hafter
  have hfirst := hviews as ((List.prefix_append as as').trans hpart)
  have hsecond := hviews _ hpart
  refine ⟨ledger_start h, hsteps, hfirst.view, ?_⟩
  intro i j
  have hext := SharedLog.extends_run (Runs.along_append.1 hsteps).2
  have hcomp := hext.comparable i j
  rw [← Runs.run_append] at hcomp
  rwa [← hfirst.view, ← hsecond.view]

/-- The first follower appends the block of the leader to the ledger, and the last one reads it
there. -/
theorem one_ledger_toy : Net.KeepsLedger .toy NodeConfig.toySiege .toySiege (Net.toyStores 1 0)
    (Net.toyBetrays 1 0 2) := by
  obtain ⟨final, hend⟩ : ∃ final, Runs.run (Net.act .toy NodeConfig.toySiege) .toySiege
      (Net.toyStores 1 0 ++ Net.toyBetrays 1 0 2) = final := ⟨_, rfl⟩
  have hrun := endures_toyBetrays hend
  rw [← List.append_nil (Net.toyStores 1 0 ++ Net.toyBetrays 1 0 2)] at hend hrun
  exact one_ledger Net.besieged_toy hend hrun

end RoutineChain
