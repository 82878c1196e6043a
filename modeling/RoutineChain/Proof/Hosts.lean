import RoutineChain.Proof.Agreement
import RoutineChain.Proof.Listener
import RoutineChain.Spec.Hosts

/-!
# From bytes to messages

A network of hosts, whose peers write bytes to connections and whose tasks read them, does what
the network of messages can do. So what holds along every run of that one holds of the bytes.

* `listen_cut`: a connection with a part of a frame carries its message, or none.
* `hosts_refine`: every run of the hosts is a run of the nodes that drains only what was sent,
  and what a node drains in it is what its listener has handed on, each message once.
-/

namespace RoutineChain

open Bincode

variable {C : Crypto} {k : ℕ} {cfg : Fin k → NodeConfig} {hosts : Hosts k} {s : Listener}
  {a : ListenAct} {i : ℕ} {c c' : Connection}

/-! ## One connection -/

/-- **A part of a frame carries its message, or none.** -/
theorem listen_cut {msg : ConsensusMessage} {stream : List UInt8}
    {item : Id × ConsensusMessage} (hlen : (serialize msg).length < 2 ^ 32)
    (hp : stream <+: sendToPeer msg) (h : listen stream = some item) :
    item = (msg.peerId, msg) := by
  obtain ⟨bytes, hbytes⟩ := hp
  have hcomplete : readFrame stream ≠ .error .unexpectedEof := by
    intro heof
    rw [listen, heof] at h
    cases h
  have hframe : listen (sendToPeer msg) = some item := by
    rw [← hbytes, listen_append hcomplete, h]
  have hprefix : (lenPrefix (serialize msg)).toNat = (serialize msg).length :=
    UInt32.toNat_ofNat_of_lt' hlen
  have hle : (serialize msg).length ≤ maxMessageLen := by
    by_contra hlong
    rw [listen, readFrame_sendToPeer, hprefix, if_pos (Nat.not_le.1 hlong)] at hframe
    cases hframe
  rw [(delivered_iff.2 hle).read, Option.some_inj] at hframe
  exact hframe.symm

/-- A stream grows by what the peer writes. -/
theorem stream_step (h : (s.step a).conns[i]? = some c') : c'.stream = [] ∨
    ∃ c, s.conns[i]? = some c ∧
      (c'.stream = c.stream ∨ ∃ bytes, a = .write i bytes ∧ c'.stream = c.stream ++ bytes) := by
  have hmoves := moves_step s a
  generalize s.step a = s' at hmoves h
  cases hmoves with
  | idle | wait | fetchAdd | tryRecv => exact .inr ⟨c', h, .inl rfl⟩
  | spawn =>
    rw [List.getElem?_append] at h
    split at h
    case isTrue => exact .inr ⟨c', h, .inl rfl⟩
    case isFalse =>
      obtain rfl := List.mem_singleton.1 (List.mem_of_getElem? h)
      exact .inl rfl
  | @conn _ j c _ hj hturns =>
    rcases conns_set_cases hj h with ⟨rfl, rfl⟩ | h
    · refine .inr ⟨c, hj, ?_⟩
      cases hturns with
      | write bytes => exact .inr ⟨bytes, rfl, rfl⟩
      | shutdown | read | fail | timeout => exact .inl rfl
    · exact .inr ⟨c', h, .inl rfl⟩
  | send hj | dropGuard hj =>
    rcases conns_set_cases hj h with ⟨rfl, rfl⟩ | h
    · exact .inr ⟨_, hj, .inl rfl⟩
    · exact .inr ⟨c', h, .inl rfl⟩

theorem received_step (s : Listener) (a : ListenAct) : s.received <+: (s.step a).received := by
  have hmoves := moves_step s a
  generalize s.step a = s' at hmoves
  cases hmoves with
  | tryRecv => exact List.prefix_append _ _
  | idle | wait | fetchAdd | spawn | conn | send | dropGuard => exact List.prefix_rfl

/-! ## All hosts -/

/-- The listeners convey what nodes and clients send. -/
structure Hosts.Genuine (hosts : Hosts k) : Prop where
  conveys : ∀ j, (hosts j).listener.Conveys
  frames : ∀ (j : Fin k) (i : ℕ) (c : Connection), (hosts j).listener.conns[i]? = some c →
    hosts.Frames c.stream
  handled : ∀ j, (hosts j).handled ≤ (hosts j).listener.received.length

theorem Hosts.Genuine.deliverable (h : hosts.Genuine) {j : Fin k} {item : Id × ConsensusMessage}
    (hitem : item ∈ (hosts j).listener.received) : hosts.net.Deliverable item.2 := by
  obtain ⟨items, hcarried, hitems⟩ := (h.conveys j).carried
  have hmem : item ∈ items := hcarried ▸ List.mem_append_left _ hitem
  obtain ⟨i, hi, hheard⟩ := List.mem_map.1 (hitems ▸ List.mem_map_of_mem hmem)
  obtain ⟨c, hc, -, -⟩ := (h.conveys j).handed i hi
  obtain ⟨msg, hmsg, hlen, hp⟩ := h.frames j i c hc
  rw [Listener.heard, hc, Option.bind_some] at hheard
  rw [listen_cut hlen hp hheard]
  exact hmsg

/-- An iteration of a node, or no step of the network. -/
def Hosts.stepped (hosts : Hosts k) : Fin k × HostAct → List (Fin k × Input)
  | (_, .listen _) => []
  | (j, .iterate requests clock) => [(j, ⟨requests, (hosts j).drained, clock⟩)]

theorem Hosts.net_step (hosts : Hosts k) (a : Fin k × HostAct) :
    (hosts.step C cfg a).net = Runs.run (Net.step C cfg) hosts.net (hosts.stepped a) := by
  obtain ⟨j, a⟩ := a
  funext j'
  by_cases hj : j' = j
  · subst hj
    cases a <;> simp [Hosts.net, Hosts.step, Hosts.stepped, Host.step, Net.step]
  · cases a <;> simp [Hosts.net, Hosts.step, Hosts.stepped, Net.step, hj]

theorem Hosts.Frames.step {stream : List UInt8} (h : hosts.Frames stream)
    (a : Fin k × HostAct) : (hosts.step C cfg a).Frames stream := by
  obtain ⟨msg, hmsg, hlen, hp⟩ := h
  refine ⟨msg, ?_, hlen, hp⟩
  rw [Hosts.net_step]
  exact Runs.inv_run (I := fun net : Net k => net.Deliverable msg)
    (fun _ am hnet _ => hnet.step am) hmsg (Runs.along_true _ _)

theorem Hosts.frames_nil (hosts : Hosts k) : hosts.Frames [] :=
  ⟨.requestTxs, trivial, by decide, List.nil_prefix⟩

theorem genuine_step (h : hosts.Genuine) (act : Fin k × HostAct) (ha : hosts.Authentic act) :
    (hosts.step C cfg act).Genuine := by
  have hframes : ∀ {stream}, hosts.Frames stream → (hosts.step C cfg act).Frames stream :=
    fun hs => hs.step act
  obtain ⟨j, a⟩ := act
  have hself : hosts.step C cfg (j, a) j = (hosts j).step C (cfg j) a := Function.update_self ..
  have hne : ∀ {j'}, j' ≠ j → hosts.step C cfg (j, a) j' = hosts j' :=
    fun hj => Function.update_of_ne hj ..
  refine ⟨?_, ?_, ?_⟩
  · intro j'
    by_cases hj : j' = j
    · subst hj
      rw [hself]
      cases a with
      | listen a => exact conveys_step (h.conveys _) a
      | iterate => exact h.conveys _
    · rw [hne hj]
      exact h.conveys j'
  · intro j' i c hc
    by_cases hj : j' = j
    · subst hj
      rw [hself] at hc
      cases a with
      | listen a =>
        rcases stream_step hc with hnil | ⟨d, hd, hsame | ⟨bytes, rfl, happ⟩⟩
        · rw [hnil]
          exact Hosts.frames_nil _
        · rw [hsame]
          exact hframes (h.frames _ i d hd)
        · rw [happ]
          exact hframes (ha d hd)
      | iterate => exact hframes (h.frames _ i c hc)
    · rw [hne hj] at hc
      exact hframes (h.frames j' i c hc)
  · intro j'
    by_cases hj : j' = j
    · subst hj
      rw [hself]
      cases a with
      | listen a => exact (h.handled _).trans (received_step _ a).length_le
      | iterate => exact Nat.le_refl _
    · rw [hne hj]
      exact h.handled j'

theorem Net.genuine_hosts (net : Net k) : net.hosts.Genuine :=
  ⟨fun _ => conveys_new, (fun _ _ _ hc => by cases hc), fun _ => Nat.zero_le _⟩

/-- What a node drains in some iterations of the network. -/
def Net.drainedBy (j : Fin k) (as : List (Fin k × Input)) : List ConsensusMessage :=
  as.flatMap fun a => if a.1 = j then a.2.msgs else []

/-- The messages that a host has handled. -/
def Host.handledMsgs (h : Host) : List ConsensusMessage :=
  (h.listener.received.take h.handled).map (·.2)

theorem handledMsgs_step (h : hosts.Genuine) (act : Fin k × HostAct) (j : Fin k) :
    (hosts.step C cfg act j).handledMsgs =
      (hosts j).handledMsgs ++ Net.drainedBy j (hosts.stepped act) := by
  obtain ⟨j', a⟩ := act
  by_cases hj : j = j'
  · subst hj
    have hself : hosts.step C cfg (j, a) j = (hosts j).step C (cfg j) a := Function.update_self ..
    rw [hself]
    cases a with
    | listen a =>
      have hnil : Net.drainedBy j (hosts.stepped (j, .listen a)) = [] := rfl
      rw [hnil, List.append_nil]
      obtain ⟨new, hnew⟩ := received_step (hosts j).listener a
      show (((hosts j).listener.step a).received.take (hosts j).handled).map (·.2) = _
      rw [← hnew, List.take_append_of_le_length (h.handled j)]
      rfl
    | iterate requests clock =>
      have hdrained : Net.drainedBy j (hosts.stepped (j, .iterate requests clock)) =
          (hosts j).drained := by simp [Net.drainedBy, Hosts.stepped]
      rw [hdrained, Host.drained, Host.handledMsgs.eq_def (hosts j), ← List.map_append,
        List.take_append_drop]
      show ((hosts j).listener.received.take (hosts j).listener.received.length).map (·.2) = _
      rw [List.take_length]
  · have hne : hosts.step C cfg (j', a) j = hosts j := Function.update_of_ne hj ..
    have hnil : Net.drainedBy j (hosts.stepped (j', a)) = [] := by
      cases a <;> simp [Net.drainedBy, Hosts.stepped, Ne.symm hj]
    rw [hne, hnil, List.append_nil]

/-- **The bytes refine the messages.** If only nodes and clients connect, every run of the
hosts is a run of the nodes in which each iteration drains only what was sent; and what a node
has drained in it is what its listener has handed on, each message once and in order. -/
theorem hosts_refine {net : Net k} {acts : List (Fin k × HostAct)}
    (h : Runs.Along (Hosts.step C cfg) Hosts.Authentic net.hosts acts) :
    ∃ as, Runs.Along (Net.step C cfg) Net.Drains net as ∧
      (Runs.run (Hosts.step C cfg) net.hosts acts).net = Runs.run (Net.step C cfg) net as ∧
      ∀ j, Net.drainedBy j as = (Runs.run (Hosts.step C cfg) net.hosts acts j).handledMsgs := by
  let Refines : Hosts k → Prop := fun hosts => hosts.Genuine ∧
    ∃ as, Runs.Along (Net.step C cfg) Net.Drains net as ∧
      hosts.net = Runs.run (Net.step C cfg) net as ∧
      ∀ j, Net.drainedBy j as = (hosts j).handledMsgs
  have hstep : ∀ hosts a, Refines hosts → hosts.Authentic a → Refines (hosts.step C cfg a) := by
    rintro hosts a ⟨hgenuine, as, hdrains, hnet, hdrained⟩ ha
    refine ⟨genuine_step hgenuine a ha, as ++ hosts.stepped a, ?_, ?_, ?_⟩
    · refine Runs.along_append.2 ⟨hdrains, ?_⟩
      rw [← hnet]
      obtain ⟨j, a⟩ := a
      cases a with
      | listen => trivial
      | iterate =>
        refine ⟨?_, trivial⟩
        intro msg hmsg
        obtain ⟨item, hitem, rfl⟩ := List.mem_map.1 hmsg
        exact hgenuine.deliverable (List.mem_of_mem_drop hitem)
    · rw [Hosts.net_step, hnet, Runs.run_append]
    · intro j
      rw [handledMsgs_step hgenuine a j, ← hdrained, Net.drainedBy, List.flatMap_append]
      rfl
  have hstart : Refines net.hosts :=
    ⟨net.genuine_hosts, [], trivial, rfl, fun _ => rfl⟩
  exact (Runs.inv_run hstep hstart h).2

/-- A host accepts a connection, a client writes a transaction to it in two pieces, and the loop
takes the transaction. -/
def Hosts.toySubmit (j : Fin k) : List (Fin k × HostAct) :=
  let frame := sendToPeer (.submitTx .toyRegister)
  [.listen .accept, .listen .load, .listen .fetchAdd, .listen .spawn,
    .listen (.write 0 (frame.take 10)), .listen (.read 0), .listen (.write 0 (frame.drop 10)),
    .listen (.read 0), .listen (.send 0), .listen .tryRecv, .iterate [] ⟨0, 0, 0, 0, 0, 0⟩].map
      (j, ·)

theorem hosts_refine_toy : ∃ as, Runs.Along (Net.step .toy NodeConfig.toyNet) Net.Drains .toy as ∧
    (Runs.run (Hosts.step .toy NodeConfig.toyNet) Net.toy.hosts (Hosts.toySubmit 0)).net =
      Runs.run (Net.step .toy NodeConfig.toyNet) .toy as ∧
    ∀ j, Net.drainedBy j as = (Runs.run (Hosts.step .toy NodeConfig.toyNet) Net.toy.hosts
      (Hosts.toySubmit 0) j).handledMsgs := by
  have hlen : (serialize (ConsensusMessage.submitTx .toyRegister)).length < 2 ^ 32 := by
    decide +kernel
  have hpiece : ((Runs.run (Hosts.step .toy NodeConfig.toyNet) Net.toy.hosts
      ((Hosts.toySubmit 0).take 6) 0).listener.conns[0]?.map (·.stream)) =
        some ((sendToPeer (.submitTx .toyRegister)).take 10) := by
    decide +kernel
  refine hosts_refine ⟨trivial, trivial, trivial, trivial, ?_, trivial, ?_, trivial, trivial,
    trivial, trivial, trivial⟩
  · intro c hc
    obtain rfl := Option.some_inj.1 hc
    exact ⟨.submitTx .toyRegister, trivial, hlen, List.take_prefix _ _⟩
  · intro c hc
    have hmap : (some c).map (·.stream) = _ := (congrArg _ hc.symm).trans hpiece
    have hstream : c.stream = (sendToPeer (.submitTx .toyRegister)).take 10 :=
      Option.some_inj.1 hmap
    rw [hstream]
    refine ⟨.submitTx .toyRegister, trivial, hlen, ?_⟩
    rw [List.take_append_drop]

end RoutineChain
