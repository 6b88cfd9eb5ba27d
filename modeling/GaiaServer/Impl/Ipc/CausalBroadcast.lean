import GaiaServer.Framework.Dict
import GaiaServer.Framework.Machine

/-!
# Causal broadcast

`gaia_server/ipc/causal_broadcast.py`: the `CausalBroadcast` object and its
messages. The payload is of any type `π`, since no method looks into it. A
message identifier is drawn at random (`uuid4`), so `send` takes its digits as
an argument; `target_cores`, which it ignores, is left out.

A handler may raise, and its exception is logged and dropped, so the calls of
the handlers do not bear on the object. `handled` records them: the messages
passed to a subscribed handler, in order, of which `delivered` keeps the
identifiers.
-/

namespace Gaia.Ipc

variable {π : Type}

structure BroadcastMessage (π : Type) where
  messageId : String
  sourceCore : String
  /-- `control | memory | policy | health`, but any string is taken. -/
  kind : String
  payload : π
  vectorClock : Dict String Int
  traceId : String := ""
  dependencies : List String := []
  deriving DecidableEq

structure CausalBroadcast (π : Type) where
  localActor : String
  clock : Dict String Int
  holdQueue : List (BroadcastMessage π)
  delivered : List String
  handled : List (BroadcastMessage π)

def healthKinds : List String := ["health"]

/-- `msg.kind in self.HEALTH_KINDS`. -/
def BroadcastMessage.isHealth (msg : BroadcastMessage π) : Bool := msg.kind ∈ healthKinds

namespace CausalBroadcast

/-- `CausalBroadcast(local_actor)`. -/
def new (localActor : String) : CausalBroadcast π where
  localActor := localActor
  clock := .single localActor 0
  holdQueue := []
  delivered := []
  handled := []

/-- The clock after `self._clock[local] = self._clock.get(local, 0) + 1`. -/
def tick (b : CausalBroadcast π) : Dict String Int :=
  b.clock.set b.localActor (b.clock.get b.localActor 0 + 1)

/-- The message that `send` returns. -/
def outbound (b : CausalBroadcast π) (kind : String) (payload : π) (traceId uuidHex : String) :
    BroadcastMessage π where
  messageId := "bc_" ++ uuidHex
  sourceCore := b.localActor
  kind := kind
  payload := payload
  vectorClock := b.tick
  traceId := traceId

def send (b : CausalBroadcast π) (kind : String) (payload : π) (traceId uuidHex : String) :
    CausalBroadcast π × BroadcastMessage π :=
  ({ b with clock := b.tick }, b.outbound kind payload traceId uuidHex)

def isDeliverable (b : CausalBroadcast π) (msg : BroadcastMessage π) : Bool :=
  let sender := msg.sourceCore
  let senderTime := msg.vectorClock.get sender 0
  let localSenderTime := b.clock.get sender 0
  if senderTime ≠ localSenderTime + 1 then false
  else msg.vectorClock.items.all fun (actor, t) => actor = sender || t ≤ b.clock.get actor 0

def deliver (b : CausalBroadcast π) (msg : BroadcastMessage π) : CausalBroadcast π :=
  let sender := msg.sourceCore
  { b with
    clock := b.clock.set sender (max (b.clock.get sender 0) (msg.vectorClock.get sender 0))
    delivered := b.delivered ++ [msg.messageId]
    handled := b.handled ++ [msg] }

/-- The inner `while` of `_try_deliver_buffered`: one pass over the queue, with
`remaining` and `delivered_any` as they stand, and `self._hold_queue = remaining`
at its end. -/
def drainPass : (queue remaining : List (BroadcastMessage π)) → (deliveredAny : Bool) →
    CausalBroadcast π → CausalBroadcast π × Bool
  | [], remaining, deliveredAny, b => ({ b with holdQueue := remaining }, deliveredAny)
  | msg :: queue, remaining, deliveredAny, b =>
    if b.isDeliverable msg then drainPass queue remaining true (b.deliver msg)
    else drainPass queue (remaining ++ [msg]) deliveredAny b

/-- The outer `while`, for at most `passes` passes. -/
def drain : (passes : Nat) → CausalBroadcast π → CausalBroadcast π
  | 0, b => b
  | passes + 1, b =>
    let (b', deliveredAny) := drainPass b.holdQueue [] false b
    if deliveredAny then drain passes b' else b'

/-- Every pass but the last takes a message off the queue, so there are no more
than these (`tryDeliverBuffered_unroll`). -/
def tryDeliverBuffered (b : CausalBroadcast π) : CausalBroadcast π :=
  drain (b.holdQueue.length + 1) b

def receive (b : CausalBroadcast π) (msg : BroadcastMessage π) : CausalBroadcast π :=
  if msg.isHealth then b.deliver msg
  else tryDeliverBuffered { b with holdQueue := b.holdQueue ++ [msg] }

def clockSnapshot (b : CausalBroadcast π) : Dict String Int := b.clock

def holdQueueDepth (b : CausalBroadcast π) : Nat := b.holdQueue.length

/-- One `receive` after another. -/
def receiveAll (b : CausalBroadcast π) (msgs : List (BroadcastMessage π)) : CausalBroadcast π :=
  msgs.foldl receive b

/-- A call that changes the object. -/
inductive Call (π : Type)
  | send (kind : String) (payload : π) (traceId uuidHex : String)
  | receive (msg : BroadcastMessage π)

/-- The object after a call. -/
def call (b : CausalBroadcast π) : Call π → CausalBroadcast π
  | .send kind payload traceId uuidHex => (b.send kind payload traceId uuidHex).1
  | .receive msg => b.receive msg

/-- One call after another. -/
def calls (b : CausalBroadcast π) (cs : List (Call π)) : CausalBroadcast π := Machine.run call b cs

end CausalBroadcast

end Gaia.Ipc
