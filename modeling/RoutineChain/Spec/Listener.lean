import RoutineChain.Lib.Channel
import RoutineChain.Lib.Runs
import RoutineChain.Spec.Wire

/-!
# The listener (`rc-consensus`)

`listen` accepts connections and spawns a task for each. The accepting loop, the tasks, their
peers and the receiver of the messages run at the same time: a `Listener` is what they share,
and a `ListenAct` is one atomic step of one of them. A step that is not enabled changes
nothing, so every list of steps is a schedule.

The number of open connections is an atomic counter. The accepting loop reads it in one step
and adds to it in another, and the guard of a task subtracts from it when it is dropped.
-/

namespace RoutineChain

/-- `MAX_CONNECTIONS`. -/
def maxConnections : ℕ := 1000

/-- The room in the channel between the listener and the block production loop. -/
def messageRoom : ℕ := 1000

/-- Where the accepting loop is. -/
inductive Acceptor where
  | accepting
  /-- A connection is accepted, and the counter not read yet. -/
  | loading
  /-- The counter was below the limit, and is not raised yet. -/
  | counting
  /-- The counter is raised, and the task not spawned yet. -/
  | spawning
  /-- `accept` has failed, and `listen` has returned. -/
  | returned
  deriving DecidableEq, Repr

/-- Where the task of a connection is. -/
inductive TaskStage where
  | reading
  /-- It has a message, and waits for room in the channel. -/
  | sending (item : Id × ConsensusMessage)
  /-- It is done, and its guard not dropped yet. -/
  | leaving
  | dropped

/-- A connection that has a task. -/
structure Connection where
  /-- The bytes that the peer has written so far. -/
  stream : List UInt8
  /-- The peer has closed its side. -/
  eof : Bool
  stage : TaskStage

def Connection.new : Connection := { stream := [], eof := false, stage := .reading }

/-- What the accepting loop, the tasks and the receiver share. -/
structure Listener where
  acceptor : Acceptor
  activeConnections : UInt64
  conns : List Connection
  channel : Channel (Id × ConsensusMessage) messageRoom
  /-- The connections whose message was sent, in order. -/
  handed : List ℕ
  /-- What the receiver has taken, in order. -/
  received : List (Id × ConsensusMessage)

def Listener.new : Listener :=
  { acceptor := .accepting, activeConnections := 0, conns := [], channel := .empty, handed := [],
    received := [] }

/-- One atomic step; a connection is named by its place in `conns`. -/
inductive ListenAct where
  -- the accepting loop
  | accept
  | acceptError
  | load
  | fetchAdd
  | spawn
  -- the peer of a connection
  | write (i : ℕ) (bytes : List UInt8)
  | shutdown (i : ℕ)
  -- the task of a connection
  | read (i : ℕ)
  | timeout (i : ℕ)
  | send (i : ℕ)
  | dropGuard (i : ℕ)
  -- the receiver
  | tryRecv

/-! ## The task of a connection -/

/-- Read the frame, if all of it is there, and decode it. -/
def Connection.read (c : Connection) : Connection :=
  match c.stage with
  | .reading =>
    match readFrame c.stream with
    -- the rest may still come
    | .error .unexpectedEof => if c.eof then { c with stage := .leaving } else c
    | .error .oversizedMessage => { c with stage := .leaving }
    | .ok _ =>
      match listen c.stream with
      | some item => { c with stage := .sending item }
      | none => { c with stage := .leaving }
  | _ => c

/-- The ten seconds are over. -/
def Connection.timeout (c : Connection) : Connection :=
  match c.stage with
  | .reading => { c with stage := .leaving }
  | _ => c

/-- The task has not dropped its guard. -/
def Connection.isLive (c : Connection) : Bool :=
  match c.stage with
  | .dropped => false
  | _ => true

/-! ## Steps -/

variable (s : Listener)

/-- Change one connection. -/
def Listener.modify (i : ℕ) (f : Connection → Connection) : Listener :=
  match s.conns[i]? with
  | some c => { s with conns := s.conns.set i (f c) }
  | none => s

/-- A step of the accepting loop. -/
def Listener.load : Listener :=
  match s.acceptor with
  | .loading =>
    -- at the limit the connection is dropped
    if s.activeConnections ≥ .ofNat maxConnections then { s with acceptor := .accepting }
    else { s with acceptor := .counting }
  | _ => s

/-- The task of a connection sends its message, if the channel has room. -/
def Listener.send (i : ℕ) : Listener :=
  match s.conns[i]? with
  | some { stage := .sending item, stream, eof } =>
    match s.channel.send? item with
    | some channel =>
      { s with
        channel, conns := s.conns.set i { stage := .leaving, stream, eof },
        handed := s.handed ++ [i] }
    | none => s
  | _ => s

/-- The guard of a task is dropped. -/
def Listener.dropGuard (i : ℕ) : Listener :=
  match s.conns[i]? with
  | some { stage := .leaving, stream, eof } =>
    { s with
      conns := s.conns.set i { stage := .dropped, stream, eof },
      activeConnections := s.activeConnections - 1 }
  | _ => s

/-- The receiver takes a message, if there is one. -/
def Listener.tryRecv : Listener :=
  match s.channel.recv? with
  | some (item, channel) => { s with channel, received := s.received ++ [item] }
  | none => s

def Listener.step : ListenAct → Listener
  | .accept => if s.acceptor = .accepting then { s with acceptor := .loading } else s
  | .acceptError => if s.acceptor = .accepting then { s with acceptor := .returned } else s
  | .load => s.load
  | .fetchAdd =>
    if s.acceptor = .counting then
      { s with acceptor := .spawning, activeConnections := s.activeConnections + 1 }
    else s
  | .spawn =>
    if s.acceptor = .spawning then
      { s with acceptor := .accepting, conns := s.conns ++ [.new] }
    else s
  -- nothing follows the end of a stream
  | .write i bytes =>
    s.modify i fun c => if c.eof then c else { c with stream := c.stream ++ bytes }
  | .shutdown i => s.modify i fun c => { c with eof := true }
  | .read i => s.modify i Connection.read
  | .timeout i => s.modify i Connection.timeout
  | .send i => s.send i
  | .dropGuard i => s.dropGuard i
  | .tryRecv => s.tryRecv

end RoutineChain
