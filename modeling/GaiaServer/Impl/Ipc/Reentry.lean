import GaiaServer.Framework.Thread
import GaiaServer.Impl.Ipc.CausalBroadcast

/-!
# Handlers that use the object

`gaia_server/ipc/causal_broadcast.py` with its lock, a `threading.Lock`, and with handlers
that call public methods of the object while a message is delivered to them: a handler is
a sequence of such calls (`Op`). What the methods do is cut up into the actions between
which the lock is acquired or released and handlers are called. None of these calls
raises, and what they return does not matter here.
-/

namespace Gaia.Ipc

variable {π : Type}

namespace Reentry

/-- A call of a public method. -/
inductive Op (π : Type)
  | send (kind : String) (payload : π) (traceId uuidHex : String)
  | receive (msg : BroadcastMessage π)
  | clockSnapshot
  | holdQueueDepth

/-- The bodies of the methods, and of the private ones that they call. -/
inductive Action (π : Type)
  | body (op : Op π)
  | deliver (msg : BroadcastMessage π)
  /-- The inner `while` of `_try_deliver_buffered`, with `remaining` and `delivered_any`. -/
  | drain (remaining : List (BroadcastMessage π)) (deliveredAny : Bool)

/-- `with self._lock: …`. -/
def Op.commands (op : Op π) : List (Command (Action π)) := [.acquire, .act (.body op), .release]

/-- The calls of the handlers, one handler after another. -/
def handlerCalls (handlers : List (List (Op π))) : List (Command (Action π)) :=
  handlers.flatMap fun program => program.flatMap Op.commands

/-- `self._hold_queue = queue`. -/
def setQueue (b : CausalBroadcast π) (queue : List (BroadcastMessage π)) : CausalBroadcast π :=
  { b with holdQueue := queue }

/-- What an action does to the object, and what it calls. -/
def exec (handlers : List (List (Op π))) :
    Action π → CausalBroadcast π → CausalBroadcast π × List (Command (Action π))
  | .body (.send kind payload traceId uuidHex), b => ((b.send kind payload traceId uuidHex).1, [])
  | .body (.receive msg), b =>
    if msg.isHealth then (b, [.act (.deliver msg)])
    else (setQueue b (b.holdQueue ++ [msg]), [.act (.drain [] false)])
  | .body .clockSnapshot, b => (b, [])
  | .body .holdQueueDepth, b => (b, [])
  | .deliver msg, b => (b.deliver msg, handlerCalls handlers)
  | .drain remaining deliveredAny, b =>
    match b.holdQueue with
    | msg :: queue =>
      let b := setQueue b queue
      if b.isDeliverable msg then (b, [.act (.deliver msg), .act (.drain remaining true)])
      else (b, [.act (.drain (remaining ++ [msg]) deliveredAny)])
    | [] => (setQueue b remaining, if deliveredAny then [.act (.drain [] false)] else [])

/-- The thread that hands the object one message after another, while nobody holds the
lock. -/
def receives (b : CausalBroadcast π) (msgs : List (BroadcastMessage π)) :
    Thread (CausalBroadcast π) (Action π) :=
  ⟨b, false, msgs.flatMap fun msg => (Op.receive msg).commands⟩

/-- The thread comes to acquire the lock that it holds. -/
def Deadlocks (handlers : List (List (Op π))) (b : CausalBroadcast π)
    (msgs : List (BroadcastMessage π)) : Prop :=
  Thread.Deadlocks (exec handlers) (receives b msgs)

end Reentry

end Gaia.Ipc
