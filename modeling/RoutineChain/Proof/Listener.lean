import RoutineChain.Proof.Wire
import RoutineChain.Spec.Listener

/-!
# Connections in any order

What the listener guarantees under every schedule of its accepting loop, its tasks, their peers
and the receiver.

* `moves_step`: what a step can do.
* `connections_limited`: the counter is the number of guards that are not dropped, it stays
  within the limit, and a connection is refused exactly if it is at the limit.
* `handed_once`: the messages come out of the channel in the order in which the connections
  have sent them, one for a connection and the one that its bytes encode; none is lost but by a
  timeout.
-/

namespace RoutineChain

open Bincode

variable {s : Listener} {a : ListenAct} {i : ℕ} {c c' : Connection}

/-! ## What a step can do -/

/-- The bytes that follow cannot change what is read. -/
def Connection.Settled (c : Connection) : Prop :=
  readFrame c.stream ≠ .error .unexpectedEof ∨ c.eof

/-- A step of the peer or of the task on one connection. -/
inductive Connection.Turns (i : ℕ) (c : Connection) : ListenAct → Connection → Prop where
  | write (bytes) (ho : c.eof = false) :
    Turns i c (.write i bytes) { c with stream := c.stream ++ bytes }
  | shutdown : Turns i c (.shutdown i) { c with eof := true }
  | read {item} (hr : c.stage = .reading) (hs : readFrame c.stream ≠ .error .unexpectedEof)
      (hi : listen c.stream = some item) : Turns i c (.read i) { c with stage := .sending item }
  | fail (hr : c.stage = .reading) (hs : c.Settled) (hn : listen c.stream = none) :
    Turns i c (.read i) { c with stage := .leaving }
  | timeout (hr : c.stage = .reading) : Turns i c (.timeout i) { c with stage := .leaving }

/-- A step of the listener. -/
inductive Listener.Moves (s : Listener) : ListenAct → Listener → Prop where
  | idle (a : ListenAct) : Moves s a s
  | wait (a : ListenAct) {x} (hs : s.acceptor ≠ .spawning) (hx : x ≠ .spawning)
      (hroom : x = .counting → s.activeConnections < .ofNat maxConnections) :
    Moves s a { s with acceptor := x }
  | fetchAdd (hs : s.acceptor = .counting) : Moves s .fetchAdd
      { s with acceptor := .spawning, activeConnections := s.activeConnections + 1 }
  | spawn (hs : s.acceptor = .spawning) :
    Moves s .spawn { s with acceptor := .accepting, conns := s.conns ++ [.new] }
  | conn {a : ListenAct} {i : ℕ} {c c' : Connection} (hi : s.conns[i]? = some c)
      (hc : c.Turns i a c') : Moves s a { s with conns := s.conns.set i c' }
  | send {i : ℕ} {c : Connection} {item channel} (hi : s.conns[i]? = some c)
      (hc : c.stage = .sending item) (hroom : s.channel.send? item = some channel) :
    Moves s (.send i) { s with
      channel, conns := s.conns.set i { c with stage := .leaving }, handed := s.handed ++ [i] }
  | dropGuard {i : ℕ} {c : Connection} (hi : s.conns[i]? = some c) (hc : c.stage = .leaving) :
    Moves s (.dropGuard i) { s with
      conns := s.conns.set i { c with stage := .dropped }
      activeConnections := s.activeConnections - 1 }
  | tryRecv {item channel} (hc : s.channel.recv? = some (item, channel)) :
    Moves s .tryRecv { s with channel, received := s.received ++ [item] }

/-- The connections after one of them is set. -/
theorem conns_set_cases {conns : List Connection} {j : ℕ} {d : Connection}
    (hi : conns[i]? = some c) (hd : (conns.set i c')[j]? = some d) :
    i = j ∧ c' = d ∨ conns[j]? = some d := by
  by_cases hij : i = j
  · subst hij
    rw [List.getElem?_set_self (List.getElem?_eq_some_iff.1 hi).1, Option.some_inj] at hd
    exact .inl ⟨rfl, hd⟩
  · rw [List.getElem?_set_ne hij] at hd
    exact .inr hd

/-- A connection that does not change. -/
theorem Listener.set_same (hi : s.conns[i]? = some c) :
    { s with conns := s.conns.set i c } = s := by
  obtain ⟨hlt, rfl⟩ := List.getElem?_eq_some_iff.1 hi
  rw [List.set_getElem_self]

theorem Listener.modify_moves {f : Connection → Connection}
    (hf : ∀ c, f c = c ∨ c.Turns i a (f c)) : s.Moves a (s.modify i f) := by
  unfold Listener.modify
  split
  case h_1 c hi =>
    rcases hf c with heq | hc
    · rw [heq, Listener.set_same hi]
      exact .idle a
    · exact .conn hi hc
  case h_2 => exact .idle a

theorem Connection.read_turns (c : Connection) : c.read = c ∨ c.Turns i (.read i) c.read := by
  unfold Connection.read
  split
  case h_1 hr =>
    split
    case h_1 hframe =>
      split
      case isTrue heof =>
        refine .inr (.fail hr (.inr heof) ?_)
        rw [listen, hframe]
      case isFalse => exact .inl rfl
    case h_2 hframe =>
      refine .inr (.fail hr (.inl ?_) ?_)
      · rw [hframe]
        simp
      · rw [listen, hframe]
    case h_3 buf hframe =>
      have hcomplete : readFrame c.stream ≠ .error .unexpectedEof := by
        rw [hframe]
        simp
      split
      case h_1 item hitem => exact .inr (.read hr hcomplete hitem)
      case h_2 hnone => exact .inr (.fail hr (.inl hcomplete) hnone)
  case h_2 => exact .inl rfl

theorem Connection.timeout_turns (c : Connection) :
    c.timeout = c ∨ c.Turns i (.timeout i) c.timeout := by
  unfold Connection.timeout
  split
  case h_1 hr => exact .inr (.timeout hr)
  case h_2 => exact .inl rfl

theorem Listener.load_moves (s : Listener) : s.Moves .load s.load := by
  unfold Listener.load
  split
  case h_1 hs =>
    have hloading : s.acceptor ≠ .spawning := by
      rw [hs]
      simp
    split
    case isTrue => exact .wait _ hloading (by simp) (by simp)
    case isFalse hroom => exact .wait _ hloading (by simp) fun _ => UInt64.not_le.1 hroom
  case h_2 => exact .idle _

theorem Listener.send_moves (s : Listener) (i : ℕ) : s.Moves (.send i) (s.send i) := by
  unfold Listener.send
  split
  case h_1 item stream eof hi =>
    split
    case h_1 channel hroom => exact .send hi rfl hroom
    case h_2 => exact .idle _
  case h_2 => exact .idle _

theorem Listener.dropGuard_moves (s : Listener) (i : ℕ) :
    s.Moves (.dropGuard i) (s.dropGuard i) := by
  unfold Listener.dropGuard
  split
  case h_1 stream eof hi => exact .dropGuard hi rfl
  case h_2 => exact .idle _

/-- **What a step can do.** -/
theorem moves_step (s : Listener) (a : ListenAct) : s.Moves a (s.step a) := by
  cases a with
  | accept =>
    rw [Listener.step]
    split
    case isTrue hs => exact .wait _ (by rw [hs]; simp) (by simp) (by simp)
    case isFalse => exact .idle _
  | acceptError =>
    rw [Listener.step]
    split
    case isTrue hs => exact .wait _ (by rw [hs]; simp) (by simp) (by simp)
    case isFalse => exact .idle _
  | load => exact s.load_moves
  | fetchAdd =>
    rw [Listener.step]
    split
    case isTrue hs => exact .fetchAdd hs
    case isFalse => exact .idle _
  | spawn =>
    rw [Listener.step]
    split
    case isTrue hs => exact .spawn hs
    case isFalse => exact .idle _
  | write i bytes =>
    refine Listener.modify_moves fun c => ?_
    split
    case isTrue => exact .inl rfl
    case isFalse ho => exact .inr (.write bytes (Bool.eq_false_iff.2 ho))
  | shutdown i => exact Listener.modify_moves fun c => .inr .shutdown
  | read i => exact Listener.modify_moves Connection.read_turns
  | timeout i => exact Listener.modify_moves Connection.timeout_turns
  | send i => exact s.send_moves i
  | dropGuard i => exact s.dropGuard_moves i
  | tryRecv =>
    rw [Listener.step, Listener.tryRecv]
    split
    case h_1 item channel hc => exact .tryRecv hc
    case h_2 => exact .idle _

/-! ## The limit -/

/-- The tasks that have not dropped their guards. -/
def Listener.live (s : Listener) : ℕ := s.conns.countP (·.isLive)

/-- The accepting loop has raised the counter for a task that it is about to spawn. -/
def Acceptor.reserved : Acceptor → ℕ
  | .spawning => 1
  | _ => 0

/-- The counter counts guards, and there is room for one more before it is raised. -/
structure Listener.Limited (s : Listener) : Prop where
  counted : s.activeConnections.toNat = s.live + s.acceptor.reserved
  room : s.acceptor = .counting → s.activeConnections.toNat < maxConnections
  bounded : s.activeConnections.toNat ≤ maxConnections

theorem toNat_maxConnections : (UInt64.ofNat maxConnections).toNat = maxConnections := rfl

theorem Acceptor.reserved_of_ne {x : Acceptor} (h : x ≠ .spawning) : x.reserved = 0 := by
  cases x <;> first | rfl | exact absurd rfl h

/-- One connection changes, and one summand of the count. -/
theorem Listener.live_set (hi : s.conns[i]? = some c) (c' : Connection) :
    (s.conns.set i c').countP (·.isLive) + c.isLive.toNat = s.live + c'.isLive.toNat := by
  obtain ⟨hlt, rfl⟩ := List.getElem?_eq_some_iff.1 hi
  have htoNat : ∀ b : Bool, b.toNat = if b then 1 else 0 := fun b => by cases b <;> rfl
  have hle : (if s.conns[i].isLive then 1 else 0) ≤ s.conns.countP (·.isLive) :=
    List.boole_getElem_le_countP hlt
  rw [List.countP_set hlt, Listener.live, htoNat, htoNat]
  omega

theorem Connection.Turns.isLive (h : c.Turns i a c') : c'.isLive = c.isLive := by
  cases h with
  | write | shutdown => rfl
  | read hr | fail hr | timeout hr => simp [Connection.isLive, hr]

theorem limited_step (h : s.Limited) (a : ListenAct) : (s.step a).Limited := by
  have hmoves := moves_step s a
  have hcounted := h.counted
  generalize s.step a = s' at hmoves
  cases hmoves with
  | idle => exact h
  | wait _ hs hx hroom =>
    rw [Acceptor.reserved_of_ne hs] at hcounted
    refine ⟨?_, fun heq => UInt64.lt_iff_toNat_lt.1 (hroom heq), h.bounded⟩
    rwa [Acceptor.reserved_of_ne hx]
  | fetchAdd hs =>
    have hroom := h.room hs
    have hmax : maxConnections = 1000 := rfl
    have hadd : (s.activeConnections + 1).toNat = s.activeConnections.toNat + 1 := by
      rw [UInt64.toNat_add, UInt64.toNat_one]
      omega
    rw [hs] at hcounted
    refine ⟨?_, ?_, ?_⟩
    · rw [hadd, hcounted]
      rfl
    · intro heq
      cases heq
    · rw [hadd]
      omega
  | spawn hs =>
    have hlive : (s.conns ++ [Connection.new]).countP (·.isLive) = s.live + 1 := List.countP_append
    rw [hs] at hcounted
    refine ⟨hcounted.trans hlive.symm, ?_, h.bounded⟩
    intro heq
    cases heq
  | @conn _ _ _ c' hi hc =>
    have hlive := Listener.live_set hi c'
    rw [hc.isLive] at hlive
    have hsame := Nat.add_right_cancel hlive
    refine ⟨?_, h.room, h.bounded⟩
    rw [hcounted, ← hsame]
    rfl
  | @send _ c _ _ hi hc =>
    have hsame := Listener.live_set hi { c with stage := .leaving }
    have hlive : c.isLive = true := by rw [Connection.isLive, hc]
    rw [hlive] at hsame
    refine ⟨?_, h.room, h.bounded⟩
    rw [hcounted, ← Nat.add_right_cancel hsame]
    rfl
  | @dropGuard _ c hi hc =>
    have hless := Listener.live_set hi { c with stage := .dropped }
    have hlive : c.isLive = true := by rw [Connection.isLive, hc]
    have hbounded := h.bounded
    rw [hlive] at hless
    -- the guard is among the counted ones
    have hless : (s.conns.set _ { c with stage := .dropped }).countP (·.isLive) + 1 = s.live :=
      hless
    have hsub : (s.activeConnections - 1).toNat = s.activeConnections.toNat - 1 := by
      refine UInt64.toNat_sub_of_le _ _ ?_
      rw [UInt64.le_iff_toNat_le, UInt64.toNat_one]
      omega
    refine ⟨?_, ?_, ?_⟩
    · rw [hsub, hcounted, ← hless, Nat.add_right_comm, Nat.add_sub_cancel]
      rfl
    · intro heq
      have hroom := h.room heq
      rw [hsub]
      omega
    · rw [hsub]
      omega
  | tryRecv => exact ⟨h.counted, h.room, h.bounded⟩

theorem limited_new : Listener.new.Limited :=
  ⟨rfl, (fun heq => by cases heq), Nat.zero_le _⟩

/-- **Connections are limited.** Under every schedule the counter is the number of guards that
are not dropped, with the one of a task about to be spawned; there are never more than
`MAX_CONNECTIONS`; and an accepted connection is refused exactly if there are so many. -/
theorem connections_limited (acts : List ListenAct) :
    (Runs.run Listener.step .new acts).Limited ∧
      Runs.Along Listener.step (fun s a => a = .load → s.acceptor = .loading →
        ((s.step a).acceptor = .accepting ↔ s.live = maxConnections)) .new acts := by
  have hstep : ∀ (s : Listener) a, s.Limited → True → (s.step a).Limited :=
    fun _ a h _ => limited_step h a
  refine ⟨Runs.inv_run hstep limited_new (Runs.along_true _ _),
    Runs.along_of_inv hstep ?_ limited_new (Runs.along_true _ _)⟩
  rintro s _ h - rfl hs
  have hcounted := h.counted
  have hbounded := h.bounded
  have hmax := toNat_maxConnections
  rw [hs, Acceptor.reserved_of_ne (by simp)] at hcounted
  have hload : s.step .load = if s.activeConnections ≥ .ofNat maxConnections then
      { s with acceptor := .accepting } else { s with acceptor := .counting } := by
    rw [Listener.step, Listener.load, hs]
  rw [hload]
  split
  case isTrue hfull =>
    refine iff_of_true rfl ?_
    rw [ge_iff_le, UInt64.le_iff_toNat_le] at hfull
    omega
  case isFalse hroom =>
    refine iff_of_false (by simp) ?_
    rw [ge_iff_le, UInt64.le_iff_toNat_le] at hroom
    omega

/-! ## The messages -/

theorem readExact_of_le {n : ℕ} {stream : List UInt8} (h : n ≤ stream.length) :
    readExact n stream = .ok (stream.take n, stream.drop n) := if_neg (Nat.not_lt.2 h)

/-- Bytes after a frame are not read. -/
theorem readFrame_append {stream : List UInt8} (h : readFrame stream ≠ .error .unexpectedEof)
    (bytes : List UInt8) : readFrame (stream ++ bytes) = readFrame stream := by
  have hmore : ∀ {n : ℕ} {stream : List UInt8}, n ≤ stream.length →
      readExact n (stream ++ bytes) = .ok (stream.take n, stream.drop n ++ bytes) := by
    intro n stream hle
    have hlen : n ≤ (stream ++ bytes).length := by
      rw [List.length_append]
      omega
    rw [readExact_of_le hlen, List.take_append_of_le_length hle,
      List.drop_append_of_le_length hle]
  unfold readFrame at h ⊢
  by_cases hprefix : 4 ≤ stream.length
  · rw [readExact_of_le hprefix] at h ⊢
    rw [hmore hprefix]
    simp only [bind, Except.bind] at h ⊢
    split
    case isTrue => rfl
    case isFalse hmax =>
      rw [if_neg hmax] at h
      -- the frame is complete, or it would not have been read
      by_cases hbody : leNat (stream.take 4).reverse ≤ (stream.drop 4).length
      · rw [readExact_of_le hbody, hmore hbody]
      · rw [readExact, if_pos (Nat.not_le.1 hbody)] at h
        exact absurd rfl h
  · rw [readExact, if_pos (Nat.not_le.1 hprefix)] at h
    exact absurd rfl h

theorem listen_append {stream : List UInt8} (h : readFrame stream ≠ .error .unexpectedEof)
    (bytes : List UInt8) : listen (stream ++ bytes) = listen stream := by
  unfold listen
  rw [readFrame_append h]

/-- All of the frame has arrived. -/
def Connection.Complete (c : Connection) : Prop := readFrame c.stream ≠ .error .unexpectedEof

/-- The task has nothing more to send. -/
def Connection.Done (c : Connection) : Prop := c.stage = .leaving ∨ c.stage = .dropped

/-- The message that the bytes of a connection encode. -/
def Listener.heard (s : Listener) (i : ℕ) : Option (Id × ConsensusMessage) :=
  s.conns[i]?.bind (listen ·.stream)

/-- What goes through the channel is what the connections that have sent encode, each once. -/
structure Listener.Conveys (s : Listener) : Prop where
  nodup : s.handed.Nodup
  handed : ∀ i ∈ s.handed, ∃ c, s.conns[i]? = some c ∧ c.Complete ∧ c.Done
  ready : ∀ (i : ℕ) (c : Connection) item, s.conns[i]? = some c → c.stage = .sending item →
    c.Complete ∧ listen c.stream = some item
  carried : ∃ items, s.channel.Carried s.received items ∧ items.map some = s.handed.map s.heard

/-- What is complete stays as it is, and what is done stays done. -/
structure Connection.Keeps (c c' : Connection) : Prop where
  complete : c.Complete → c'.Complete ∧ listen c'.stream = listen c.stream
  done : c.Done → c'.Done
  ready : ∀ item, c'.stage = .sending item →
    c.stage = .sending item ∨ c'.Complete ∧ listen c'.stream = some item

theorem Connection.Turns.keeps (h : c.Turns i a c') : c.Keeps c' := by
  cases h with
  | write bytes =>
    refine ⟨fun hc => ⟨?_, listen_append hc bytes⟩, id, fun _ h => .inl h⟩
    rw [Connection.Complete, readFrame_append hc]
    exact hc
  | shutdown => exact ⟨fun hc => ⟨hc, rfl⟩, id, fun _ h => .inl h⟩
  | read hr hs hi =>
    refine ⟨fun hc => ⟨hc, rfl⟩, ?_, ?_⟩
    · intro hd
      rcases hd with hd | hd <;> rw [hr] at hd <;> cases hd
    · intro item heq
      cases heq
      exact .inr ⟨hs, hi⟩
  | fail | timeout =>
    refine ⟨fun hc => ⟨hc, rfl⟩, fun _ => .inl rfl, ?_⟩
    intro item heq
    cases heq

theorem Listener.Conveys.not_handed (h : s.Conveys) (hi : s.conns[i]? = some c)
    (hd : ¬ c.Done) : i ∉ s.handed := by
  intro hmem
  obtain ⟨c', hc', -, hdone⟩ := h.handed i hmem
  obtain rfl := Option.some_inj.1 (hi.symm.trans hc')
  exact hd hdone

/-- One connection changes. -/
theorem Listener.Conveys.set (h : s.Conveys) (hi : s.conns[i]? = some c) (hc : c.Keeps c') :
    { s with conns := s.conns.set i c' }.Conveys := by
  obtain ⟨hlt, -⟩ := List.getElem?_eq_some_iff.1 hi
  have hself : (s.conns.set i c')[i]? = some c' := List.getElem?_set_self hlt
  refine ⟨h.nodup, ?_, ?_, ?_⟩
  · intro j hj
    obtain ⟨d, hd, hcomplete, hdone⟩ := h.handed j hj
    by_cases hij : i = j
    · subst hij
      obtain rfl := Option.some_inj.1 (hi.symm.trans hd)
      exact ⟨c', hself, (hc.complete hcomplete).1, hc.done hdone⟩
    · exact ⟨d, (List.getElem?_set_ne hij).trans hd, hcomplete, hdone⟩
  · intro j d item hd hstage
    by_cases hij : i = j
    · subst hij
      obtain rfl := Option.some_inj.1 (hself.symm.trans hd)
      rcases hc.ready item hstage with hsending | hready
      · obtain ⟨hcomplete, hlisten⟩ := h.ready i c item hi hsending
        obtain ⟨hcomplete', hsame⟩ := hc.complete hcomplete
        exact ⟨hcomplete', hsame.trans hlisten⟩
      · exact hready
    · exact h.ready j d item ((List.getElem?_set_ne hij).symm.trans hd) hstage
  · obtain ⟨items, hcarried, hitems⟩ := h.carried
    refine ⟨items, hcarried, hitems.trans (List.map_congr_left ?_)⟩
    intro j hj
    obtain ⟨d, hd, hcomplete, -⟩ := h.handed j hj
    by_cases hij : i = j
    · subst hij
      obtain rfl := Option.some_inj.1 (hi.symm.trans hd)
      simp only [Listener.heard, hself, hi, Option.bind_some, (hc.complete hcomplete).2]
    · simp only [Listener.heard, List.getElem?_set_ne hij]

/-- A connection that is done has sent its message. -/
theorem Listener.Conveys.sends {item : Id × ConsensusMessage}
    {channel : Channel (Id × ConsensusMessage) messageRoom} (h : s.Conveys)
    (hi : s.conns[i]? = some c) (hnew : i ∉ s.handed) (hcomplete : c.Complete) (hdone : c.Done)
    (hlisten : listen c.stream = some item) (hroom : s.channel.send? item = some channel) :
    { s with channel, handed := s.handed ++ [i] }.Conveys := by
  refine ⟨?_, ?_, h.ready, ?_⟩
  · rw [← List.concat_eq_append]
    exact h.nodup.concat hnew
  · intro j hj
    rcases List.mem_append.1 hj with hj | hj
    · exact h.handed j hj
    · rw [List.mem_singleton.1 hj]
      exact ⟨c, hi, hcomplete, hdone⟩
  · obtain ⟨items, hcarried, hitems⟩ := h.carried
    refine ⟨items ++ [item], hcarried.send hroom, ?_⟩
    have hheard : s.heard i = some item := by rw [Listener.heard, hi, Option.bind_some, hlisten]
    rw [List.map_append, List.map_append, hitems, List.map_singleton, List.map_singleton,
      ← hheard]
    rfl

theorem conveys_step (h : s.Conveys) (a : ListenAct) : (s.step a).Conveys := by
  have hmoves := moves_step s a
  generalize s.step a = s' at hmoves
  cases hmoves with
  | idle => exact h
  | wait | fetchAdd => exact ⟨h.nodup, h.handed, h.ready, h.carried⟩
  | spawn =>
    have hold : ∀ {i : ℕ} {c : Connection}, s.conns[i]? = some c →
        (s.conns ++ [Connection.new])[i]? = some c := by
      intro i c hi
      rw [List.getElem?_append_left (List.getElem?_eq_some_iff.1 hi).1, hi]
    refine ⟨h.nodup, ?_, ?_, ?_⟩
    · intro i hi
      obtain ⟨c, hc, hcomplete, hdone⟩ := h.handed i hi
      exact ⟨c, hold hc, hcomplete, hdone⟩
    · intro i c item hi hstage
      rw [List.getElem?_append] at hi
      split at hi
      case isTrue => exact h.ready i c item hi hstage
      case isFalse =>
        -- a new connection has nothing to send
        obtain rfl := List.mem_singleton.1 (List.mem_of_getElem? hi)
        cases hstage
    · obtain ⟨items, hcarried, hitems⟩ := h.carried
      refine ⟨items, hcarried, hitems.trans (List.map_congr_left ?_)⟩
      intro i hi
      obtain ⟨c, hc, -, -⟩ := h.handed i hi
      rw [Listener.heard, Listener.heard, hc, hold hc]
  | conn hi hc => exact h.set hi hc.keeps
  | @send i c item channel hi hc hroom =>
    obtain ⟨hcomplete, hlisten⟩ := h.ready i c item hi hc
    have hnew : i ∉ s.handed := by
      refine h.not_handed hi ?_
      intro hd
      rcases hd with hd | hd <;> rw [hc] at hd <;> cases hd
    have hkeeps : c.Keeps { c with stage := .leaving } := by
      refine ⟨fun hc => ⟨hc, rfl⟩, fun _ => .inl rfl, ?_⟩
      intro item heq
      cases heq
    have hself : (s.conns.set i { c with stage := .leaving })[i]? =
        some { c with stage := .leaving } :=
      List.getElem?_set_self (List.getElem?_eq_some_iff.1 hi).1
    exact (h.set hi hkeeps).sends hself hnew hcomplete (.inl rfl) hlisten hroom
  | @dropGuard i c hi hc =>
    have hkeeps : c.Keeps { c with stage := .dropped } := by
      refine ⟨fun hc => ⟨hc, rfl⟩, fun _ => .inr rfl, ?_⟩
      intro item heq
      cases heq
    have hset := h.set hi hkeeps
    exact ⟨hset.nodup, hset.handed, hset.ready, hset.carried⟩
  | tryRecv hc =>
    obtain ⟨items, hcarried, hitems⟩ := h.carried
    exact ⟨h.nodup, h.handed, h.ready, items, hcarried.recv hc, hitems⟩

/-- A task that is done has sent what could be read. -/
def Listener.Settles (s : Listener) (i : ℕ) : Prop :=
  ∀ c, s.conns[i]? = some c → c.Done → c.Settled ∧ ((listen c.stream).isSome → i ∈ s.handed)

theorem Connection.Turns.settled {P : Prop} (h : c.Turns i a c') (ha : a ≠ .timeout i)
    (hc : c.Done → c.Settled ∧ ((listen c.stream).isSome → P)) (hdone : c'.Done) :
    c'.Settled ∧ ((listen c'.stream).isSome → P) := by
  cases h with
  | write bytes ho =>
    obtain ⟨hcomplete | heof, hsent⟩ := hc hdone
    · refine ⟨.inl ?_, ?_⟩
      · rw [readFrame_append hcomplete]
        exact hcomplete
      · rw [listen_append hcomplete]
        exact hsent
    · rw [ho] at heof
      cases heof
  | shutdown => exact ⟨.inr rfl, (hc hdone).2⟩
  | read => rcases hdone with hdone | hdone <;> cases hdone
  | fail _ hs hn =>
    refine ⟨hs, ?_⟩
    rw [hn]
    intro hsome
    cases hsome
  | timeout => exact absurd rfl ha

theorem settles_step (h : s.Settles i) (hs : s.Conveys) (ha : a ≠ .timeout i) :
    (s.step a).Settles i := by
  have hmoves := moves_step s a
  generalize s.step a = s' at hmoves
  cases hmoves with
  | idle => exact h
  | wait | fetchAdd | tryRecv => exact h
  | spawn =>
    intro c hc hdone
    rw [List.getElem?_append] at hc
    split at hc
    case isTrue => exact h c hc hdone
    case isFalse =>
      -- a new connection is not done
      obtain rfl := List.mem_singleton.1 (List.mem_of_getElem? hc)
      rcases hdone with hdone | hdone <;> cases hdone
  | @conn _ j c c' hj hturns =>
    intro d hd hdone
    rcases conns_set_cases hj hd with ⟨rfl, rfl⟩ | hd
    · exact hturns.settled ha (h c hj) hdone
    · exact h d hd hdone
  | @send j c item channel hj hstage hroom =>
    obtain ⟨hcomplete, -⟩ := hs.ready j c item hj hstage
    intro d hd hdone
    rcases conns_set_cases hj hd with ⟨rfl, rfl⟩ | hd
    · exact ⟨.inl hcomplete, fun _ => List.mem_append_right _ List.mem_cons_self⟩
    · obtain ⟨hsettled, hsent⟩ := h d hd hdone
      exact ⟨hsettled, fun hsome => List.mem_append_left _ (hsent hsome)⟩
  | @dropGuard j c hj hstage =>
    intro d hd hdone
    rcases conns_set_cases hj hd with ⟨rfl, rfl⟩ | hd
    · exact h c hj (.inl hstage)
    · exact h d hd hdone

theorem conveys_new : Listener.new.Conveys :=
  ⟨List.nodup_nil, (fun _ hi => by cases hi), (fun _ _ _ hc => by cases hc),
    [], Channel.carried_empty, rfl⟩

/-- **Every message once, in order.** Under every schedule, what has been received, followed by
what waits in the channel, is what the connections encode that have sent, in the order of
their sends and one for each. A connection that is done and not timed out has sent if its bytes
encode a message, and only then. -/
theorem handed_once (acts : List ListenAct) :
    (Runs.run Listener.step .new acts).Conveys ∧
      ∀ i c, .timeout i ∉ acts → (Runs.run Listener.step .new acts).conns[i]? = some c → c.Done →
        (i ∈ (Runs.run Listener.step .new acts).handed ↔ (listen c.stream).isSome) := by
  have hconveys : (Runs.run Listener.step .new acts).Conveys :=
    Runs.inv_run (I := Listener.Conveys) (fun _ a h _ => conveys_step h a) conveys_new
      (Runs.along_true _ _)
  refine ⟨hconveys, ?_⟩
  intro i c hi hc hdone
  have hnew : Listener.new.Conveys ∧ Listener.new.Settles i :=
    ⟨conveys_new, fun c hc => by cases hc⟩
  have halong : Runs.Along Listener.step (fun _ a => a ≠ .timeout i) .new acts := by
    refine Runs.along_of_forall ?_ _
    rintro a ha rfl
    exact hi ha
  obtain ⟨-, hsettles⟩ := Runs.inv_run (I := fun s : Listener => s.Conveys ∧ s.Settles i)
    (fun _ a h ha => ⟨conveys_step h.1 a, settles_step h.2 h.1 ha⟩) hnew halong
  refine ⟨?_, (hsettles c hc hdone).2⟩
  intro hmem
  obtain ⟨items, -, hitems⟩ := hconveys.carried
  obtain ⟨item, -, hitem⟩ := List.mem_map.1 (hitems ▸ List.mem_map_of_mem hmem)
  rw [Listener.heard, hc, Option.bind_some] at hitem
  rw [← hitem]
  rfl

/-- A message that comes in two pieces is received once. -/
example : (Runs.run Listener.step .new
    [.accept, .load, .fetchAdd, .spawn, .write 0 ((sendToPeer .requestTxs).take 5), .read 0,
      .write 0 ((sendToPeer .requestTxs).drop 5), .read 0, .send 0, .tryRecv, .read 0,
      .tryRecv]).received.length = 1 := by
  decide +kernel

end RoutineChain
