import RoutineChain.Spec.Listener
import RoutineChain.Spec.Network

/-!
# Nodes with their listeners

A network at the level of bytes: the production loop of each node and its listener run at the
same time and share the message channel. An iteration takes what its loop has received since
the last one. `Spec/Network` is the same network at the level of messages.
-/

namespace RoutineChain

open Bincode

/-- A node, its listener, and how much of what was received its loop has handled. -/
structure Host where
  process : Process
  listener : Listener
  handled : ℕ

/-- What happens on a host. -/
inductive HostAct where
  /-- A step of the accepting loop, of a task or of a peer, or a turn of `try_recv`. -/
  | listen (a : ListenAct)
  /-- The loop handles what it has received. -/
  | iterate (requests : List (SubmitTxRequest × Int64)) (clock : Clock)

abbrev Hosts (n : ℕ) := Fin n → Host

variable (C : Crypto) {n : ℕ} (cfg : Fin n → NodeConfig)

/-- What the loop has received and not handled. -/
def Host.drained (h : Host) : List ConsensusMessage :=
  (h.listener.received.drop h.handled).map (·.2)

def Host.step (cfg : NodeConfig) (h : Host) : HostAct → Host
  | .listen a => { h with listener := h.listener.step a }
  | .iterate requests clock =>
    { h with
      process := h.process.iterate C cfg ⟨requests, h.drained, clock⟩
      handled := h.listener.received.length }

def Hosts.step (hosts : Hosts n) (a : Fin n × HostAct) : Hosts n :=
  Function.update hosts a.1 ((hosts a.1).step C (cfg a.1) a.2)

/-- The nodes, without their listeners. -/
def Hosts.net (hosts : Hosts n) : Net n := fun i => (hosts i).process

/-- The nodes of a network, with listeners that have accepted nothing yet. -/
def Net.hosts (net : Net n) : Hosts n :=
  fun i => { process := net i, listener := .new, handled := 0 }

/-- The bytes are some of what `send_to_peer` writes for a message that can be sent by now,
from the first one on. -/
def Hosts.Frames (hosts : Hosts n) (stream : List UInt8) : Prop :=
  ∃ msg, hosts.net.Deliverable msg ∧ (serialize msg).length < 2 ^ 32 ∧ stream <+: sendToPeer msg

/-- Only nodes and clients connect, and each connection carries one message. -/
def Hosts.Authentic (hosts : Hosts n) : Fin n × HostAct → Prop
  | (j, .listen (.write i bytes)) =>
    ∀ c, (hosts j).listener.conns[i]? = some c → hosts.Frames (c.stream ++ bytes)
  | _ => True

end RoutineChain
