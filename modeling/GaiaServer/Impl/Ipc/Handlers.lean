import GaiaServer.Framework.Loop
import GaiaServer.Impl.Exceptions
import GaiaServer.Impl.Ipc.CausalBroadcast

/-!
# Handlers

`_deliver`, `_try_deliver_buffered` and `receive` of
`gaia_server/ipc/causal_broadcast.py` with the handlers that are subscribed. A handler
may do anything outside of the object (`σ`), return, raise an `Exception`, which is
logged and dropped, or raise what is no `Exception`, which leaves `receive`. `subscribe`
takes no lock, so the handler itself, or another thread meanwhile, may subscribe more
handlers; the loop of `_deliver` comes to them, too, since a list iterator looks at the
length of the list at each of its items. The loop is followed for a number of rounds, and
one that they do not bring to an end is `unended`. A handler that uses the object itself
otherwise is in `Impl.Ipc.Reentry`.
-/

namespace Gaia.Ipc

variable {η σ π : Type}

/-- How the call of a handler ends. -/
inductive HandlerEnd
  | returned
  | raised (exc : Exc)
  | left (exc : ExitExc)

/-- The call of a handler: how it ends, the handlers that are subscribed during it, and
what is outside after it. -/
structure HandlerRun (η σ : Type) where
  ended : HandlerEnd
  subscribed : List η := []
  outside : σ

/-- What the handlers do. -/
abbrev Behaviour (η σ π : Type) := η → BroadcastMessage π → σ → HandlerRun η σ

/-- Why a call does not come to its end: an exception leaves it, or its rounds ran out. -/
inductive Stop
  | left (exc : ExitExc)
  | unended
  deriving DecidableEq

/-- The object, its handlers, and what is outside of it. -/
structure Subscribed (η σ π : Type) where
  object : CausalBroadcast π
  handlers : List η
  outside : σ

namespace Subscribed

/-- `self._hold_queue = queue`. -/
def withQueue (n : Subscribed η σ π) (queue : List (BroadcastMessage π)) : Subscribed η σ π :=
  { n with object := { n.object with holdQueue := queue } }

/-- What the call of a handler leaves. -/
def after (n : Subscribed η σ π) (run : HandlerRun η σ) : Subscribed η σ π :=
  { n with handlers := n.handlers ++ run.subscribed, outside := run.outside }

variable (behave : Behaviour η σ π)

/-- `for handler in self._handlers: try: … except Exception: …`, from a place on. -/
def callHandlers (msg : BroadcastMessage π) : (rounds place : Nat) → Subscribed η σ π →
    Except Stop Unit × Subscribed η σ π
  | 0, _, n => (.error .unended, n)
  | rounds + 1, place, n =>
    match n.handlers[place]? with
    | none => (.ok (), n)
    | some handler =>
      let run := behave handler msg n.outside
      match run.ended with
      | .returned => callHandlers msg rounds (place + 1) (n.after run)
      | .raised _ => callHandlers msg rounds (place + 1) (n.after run)
      | .left exc => (.error (.left exc), n.after run)

variable (rounds : Nat)

/-- `_deliver`. -/
def deliver (n : Subscribed η σ π) (msg : BroadcastMessage π) :
    Except Stop Unit × Subscribed η σ π :=
  callHandlers behave msg rounds 0 { n with object := n.object.deliver msg }

/-- The inner `while` of `_try_deliver_buffered`, with `remaining` and `delivered_any`
as they stand. An exception leaves what is not popped yet in `_hold_queue`, and drops
the local `remaining`. -/
def drainPass : (queue remaining : List (BroadcastMessage π)) → (deliveredAny : Bool) →
    Subscribed η σ π → Except Stop Bool × Subscribed η σ π
  | [], remaining, deliveredAny, n => (.ok deliveredAny, n.withQueue remaining)
  | msg :: queue, remaining, deliveredAny, n =>
    if n.object.isDeliverable msg then
      match n.deliver behave rounds msg with
      | (.error stop, n) => (.error stop, n.withQueue queue)
      | (.ok _, n) => drainPass queue remaining true n
    else drainPass queue (remaining ++ [msg]) deliveredAny n

/-- One pass of the outer `while`: whether it is to go on. -/
def pass (n : Subscribed η σ π) : Except Stop Bool × Subscribed η σ π :=
  drainPass behave rounds n.object.holdQueue [] false n

/-- `_try_deliver_buffered`. Every pass that goes on takes a message off the queue, so
there are no more than these. -/
def tryDeliverBuffered (n : Subscribed η σ π) : Except Stop Unit × Subscribed η σ π :=
  Loop.repeatWhile (pass behave rounds) (n.object.holdQueue.length + 1) n

/-- The object with `msg` in its queue. -/
def enqueue (n : Subscribed η σ π) (msg : BroadcastMessage π) : Subscribed η σ π :=
  n.withQueue (n.object.holdQueue ++ [msg])

/-- `receive`. -/
def receive (n : Subscribed η σ π) (msg : BroadcastMessage π) :
    Except Stop Unit × Subscribed η σ π :=
  if msg.isHealth then n.deliver behave rounds msg
  else (n.enqueue msg).tryDeliverBuffered behave rounds

end Subscribed

end Gaia.Ipc
