import GaiaServer.Framework.Monitor
import GaiaServer.Impl.Ipc.Handlers

/-!
# The broadcast's methods, access by access

The methods of `gaia_server/ipc/causal_broadcast.py` as threads run them. Each but
`subscribe` holds `self._lock`; inside, the accesses to the clock, the queue and the list of
handlers, and the calls of the handlers, come one by one. `subscribe` appends to the list of
handlers without the lock, so also while a message is being delivered: a list iterator looks
at its length at each of its items.

How the call of a handler ends may depend on all calls before it (`outcome`). There is room
for `capacity` handlers, beyond which `append` raises a `MemoryError`. A handler that uses the
object itself is in `Impl.Ipc.Reentry`.
-/

namespace Gaia.Ipc.Methods

variable {η π : Type}

/-- A call of a handler, which is named by its place in the list: what it got. -/
abbrev HandlerCall (π : Type) := Nat × BroadcastMessage π

/-- The object, its handlers, and the calls of them so far. -/
structure Shared (η π : Type) where
  object : CausalBroadcast π
  handlers : List η
  called : List (HandlerCall π)

/-- `CausalBroadcast(local_actor)`. -/
def Shared.new (localActor : String) : Shared η π := ⟨.new localActor, [], []⟩

/-- The accesses. -/
inductive Access (η π : Type)
  | localActor
  /-- `self._clock.get(actor, 0)`. -/
  | clockGet (actor : String)
  | clockSet (actor : String) (t : Int)
  /-- `dict(self._clock)`. -/
  | clockCopy
  | appendDelivered (msg : BroadcastMessage π)
  /-- The next item of an iterator over the handlers. -/
  | nextHandler (place : Nat)
  | callHandler (place : Nat) (handler : η) (msg : BroadcastMessage π)
  | queueLength
  | popLeft
  | appendQueue (msg : BroadcastMessage π)
  | setQueue (queue : List (BroadcastMessage π))
  | appendHandler (handler : η)

abbrev AccessRes : Access η π → Type
  | .localActor => String
  | .clockGet _ => Int
  | .clockSet .. => Unit
  | .clockCopy => Dict String Int
  | .appendDelivered _ => Unit
  | .nextHandler _ => Option η
  | .callHandler .. => HandlerEnd
  | .queueLength => Nat
  | .popLeft => BroadcastMessage π
  | .appendQueue _ => Unit
  | .setQueue _ => Unit
  | .appendHandler _ => Unit

/-- An exception that leaves a method: of the object, or of a handler. -/
abbrev Left := Exc ⊕ ExitExc

def memoryError : Left := .inl ⟨.other "MemoryError", ""⟩

def indexError : Left := .inl ⟨.other "IndexError", "pop from an empty deque"⟩

abbrev SharedProg (η π α : Type) := Prog (Access η π) AccessRes Left α

/-- An access, whose exception passes. -/
abbrev access (o : Access η π) : SharedProg η π (AccessRes o) := Prog.perform o

/-- How the call of a handler ends, given the calls before it. -/
abbrev Outcome (η π : Type) := List (HandlerCall π) → η → BroadcastMessage π → HandlerEnd

/-- What the accesses do. -/
def Access.handle (outcome : Outcome η π) (capacity : Nat) :
    Prog.Handler (Access η π) AccessRes Left (Shared η π)
  | .localActor, s => (.ok s.object.localActor, s)
  | .clockGet actor, s => (.ok (s.object.clock.get actor 0), s)
  | .clockSet actor t, s =>
    (.ok (), { s with object := { s.object with clock := s.object.clock.set actor t } })
  | .clockCopy, s => (.ok s.object.clock, s)
  | .appendDelivered msg, s => (.ok (), { s with object := { s.object with
      delivered := s.object.delivered ++ [msg.messageId], handled := s.object.handled ++ [msg] } })
  | .nextHandler place, s => (.ok s.handlers[place]?, s)
  | .callHandler place handler msg, s =>
    (.ok (outcome s.called handler msg), { s with called := s.called ++ [(place, msg)] })
  | .queueLength, s => (.ok s.object.holdQueue.length, s)
  | .popLeft, s =>
    match s.object.holdQueue with
    | [] => (.error indexError, s)
    | msg :: queue => (.ok msg, { s with object := { s.object with holdQueue := queue } })
  | .appendQueue msg, s =>
    (.ok (), { s with object := { s.object with holdQueue := s.object.holdQueue ++ [msg] } })
  | .setQueue queue, s => (.ok (), { s with object := { s.object with holdQueue := queue } })
  | .appendHandler handler, s =>
    if s.handlers.length < capacity then (.ok (), { s with handlers := s.handlers ++ [handler] })
    else (.error memoryError, s)

/-! ## The private methods -/

/-- The loop of `_is_deliverable`. -/
def allKnown (sender : String) : List (String × Int) → SharedProg η π Bool
  | [] => return true
  | (actor, t) :: items => do
    if actor = sender then allKnown sender items
    else do
      let known ← access (.clockGet actor)
      if t > known then return false else allKnown sender items

def isDeliverable (msg : BroadcastMessage π) : SharedProg η π Bool := do
  let sender := msg.sourceCore
  let senderTime := msg.vectorClock.get sender 0
  let localSenderTime ← access (.clockGet sender)
  if senderTime ≠ localSenderTime + 1 then return false
  else allKnown sender msg.vectorClock.items

/-- The loop of `_deliver`, from a place on. No list has more items than `rounds` rounds reach. -/
def callHandlers (msg : BroadcastMessage π) : (rounds place : Nat) → SharedProg η π Unit
  | 0, _ => return ()
  | rounds + 1, place => do
    let handler ← access (.nextHandler place)
    match handler with
    | none => return ()
    | some handler => do
      let ended ← access (.callHandler place handler msg)
      match ended with
      | .returned => callHandlers msg rounds (place + 1)
      | .raised _ => callHandlers msg rounds (place + 1)
      | .left exc => .raise (.inr exc)

def deliver (capacity : Nat) (msg : BroadcastMessage π) : SharedProg η π Unit := do
  let sender := msg.sourceCore
  let localSenderTime ← access (.clockGet sender)
  access (.clockSet sender (max localSenderTime (msg.vectorClock.get sender 0)))
  access (.appendDelivered msg)
  callHandlers msg (capacity + 1) 0

/-- The inner `while` of `_try_deliver_buffered`, with `remaining` and `delivered_any` as they
stand, over a queue that is empty after `rounds` messages. -/
def drainPass (capacity : Nat) : (rounds : Nat) → (remaining : List (BroadcastMessage π)) →
    (deliveredAny : Bool) → SharedProg η π Bool
  | 0, remaining, deliveredAny => do
    access (.setQueue remaining)
    return deliveredAny
  | rounds + 1, remaining, deliveredAny => do
    let length ← access .queueLength
    if length = 0 then do
      access (.setQueue remaining)
      return deliveredAny
    else do
      let msg ← access .popLeft
      let deliverable ← isDeliverable msg
      if deliverable then do
        deliver capacity msg
        drainPass capacity rounds remaining true
      else drainPass capacity rounds (remaining ++ [msg]) deliveredAny

/-- The outer `while`, for at most `passes` passes. Nobody else changes the queue, so what it
holds at the start of a pass bounds its rounds. -/
def drain (capacity : Nat) : (passes : Nat) → SharedProg η π Unit
  | 0 => return ()
  | passes + 1 => do
    let rounds ← access .queueLength
    let deliveredAny ← drainPass capacity (rounds + 1) [] false
    if deliveredAny then drain capacity passes else return ()

/-- `_try_deliver_buffered`. Every pass that goes on takes a message off the queue. -/
def tryDeliverBuffered (capacity : Nat) : SharedProg η π Unit := do
  let passes ← access .queueLength
  drain capacity (passes + 1)

/-! ## The methods -/

/-- A call of a public method. -/
inductive BroadcastMethod (η π : Type)
  | send (kind : String) (payload : π) (traceId uuidHex : String)
  | receive (msg : BroadcastMessage π)
  | clockSnapshot
  | holdQueueDepth
  | subscribe (handler : η)

abbrev BroadcastRes : BroadcastMethod η π → Type
  | .send .. => BroadcastMessage π
  | .receive _ => Unit
  | .clockSnapshot => Dict String Int
  | .holdQueueDepth => Nat
  | .subscribe _ => Unit

namespace BroadcastMethod

def sendBody (kind : String) (payload : π) (traceId uuidHex : String) :
    SharedProg η π (BroadcastMessage π) := do
  let localActor ← access .localActor
  let t ← access (.clockGet localActor)
  access (.clockSet localActor (t + 1))
  let clock ← access .clockCopy
  return {
    messageId := "bc_" ++ uuidHex
    sourceCore := localActor
    kind := kind
    payload := payload
    vectorClock := clock
    traceId := traceId }

def receiveBody (capacity : Nat) (msg : BroadcastMessage π) : SharedProg η π Unit := do
  if msg.isHealth then deliver capacity msg
  else do
    access (.appendQueue msg)
    tryDeliverBuffered capacity

/-- The body of a method. -/
def body (capacity : Nat) : (m : BroadcastMethod η π) → SharedProg η π (BroadcastRes m)
  | .send kind payload traceId uuidHex => sendBody kind payload traceId uuidHex
  | .receive msg => receiveBody capacity msg
  | .clockSnapshot => access .clockCopy
  | .holdQueueDepth => access .queueLength
  | .subscribe handler => access (.appendHandler handler)

/-- All but `subscribe` hold the lock. -/
def locked : BroadcastMethod η π → Bool
  | .subscribe _ => false
  | _ => true

/-- What the methods do to the object at once. -/
def atOnce : Prog.Handler (BroadcastMethod η π) BroadcastRes Left (CausalBroadcast π)
  | .send kind payload traceId uuidHex, b =>
    (.ok (b.send kind payload traceId uuidHex).2, (b.send kind payload traceId uuidHex).1)
  | .receive msg, b => (.ok (), b.receive msg)
  | .clockSnapshot, b => (.ok b.clockSnapshot, b)
  | .holdQueueDepth, b => (.ok b.holdQueueDepth, b)
  | .subscribe _, b => (.ok (), b)

end BroadcastMethod

/-- The object, as its threads use it. -/
def broadcastMonitor (outcome : Outcome η π) (capacity : Nat) :
    Monitor (BroadcastMethod η π) BroadcastRes (Access η π) AccessRes Left (Shared η π) where
  handler := Access.handle outcome capacity
  body := BroadcastMethod.body capacity
  locked := BroadcastMethod.locked

end Gaia.Ipc.Methods
