import GaiaServer.Framework.CausalOrder
import GaiaServer.Impl.Ipc.CausalBroadcast
import Mathlib.Logic.Function.Basic

/-!
# A broadcast group and its network

A group of `CausalBroadcast` objects with distinct names, all freshly made, and
a network that hands any sent message to any object's `receive`, any number of
times and in any order. `Net.Reachable K` is every state of every run whose
sends are of kinds in `K`; a state carries the log of what happened.
-/

namespace Gaia.Ipc

open Function (update)

variable {ι π : Type}

/-- The names of a group's actors. -/
structure Group (ι : Type) where
  name : ι → String
  distinct : Function.Injective name

/-- The state of every actor, and what has happened. -/
structure Net (ι π : Type) where
  node : ι → CausalBroadcast π
  log : Log ι (BroadcastMessage π)

namespace Net

/-- A group of fresh objects. -/
def initial (G : Group ι) : Net ι π := ⟨fun i => .new (G.name i), []⟩

variable [DecidableEq ι]

/-- Actor `i` calls `send`. -/
def send (N : Net ι π) (i : ι) (kind : String) (payload : π) (traceId uuidHex : String) : Net ι π :=
  let (b, msg) := (N.node i).send kind payload traceId uuidHex
  ⟨update N.node i b, .sent i msg :: N.log⟩

/-- The messages that a call of `receive` delivers, in order. -/
def deliveries (b : CausalBroadcast π) (msg : BroadcastMessage π) : List (BroadcastMessage π) :=
  (b.receive msg).handled.drop b.handled.length

/-- The network hands `msg` to actor `i`. -/
def receive (N : Net ι π) (i : ι) (msg : BroadcastMessage π) : Net ι π where
  node := update N.node i ((N.node i).receive msg)
  log := ((deliveries (N.node i) msg).map (.delivered i)).reverse ++ .received i msg :: N.log

/-- The states that runs of the group reach, sending messages of kinds in `K`. -/
inductive Reachable (G : Group ι) (K : String → Prop) : Net ι π → Prop
  | initial : Reachable G K (initial G)
  | send {N : Net ι π} (h : Reachable G K N) (i : ι) {kind : String} (hk : K kind) (payload : π)
      (traceId uuidHex : String) : Reachable G K (N.send i kind payload traceId uuidHex)
  | receive {N : Net ι π} (h : Reachable G K N) (i : ι) {msg : BroadcastMessage π} {j : ι}
      (hm : .sent j msg ∈ N.log) : Reachable G K (N.receive i msg)

end Net

/-- The kinds that are causally ordered: all but the health kinds. -/
abbrev NonHealth (kind : String) : Prop := kind ∉ healthKinds

end Gaia.Ipc
