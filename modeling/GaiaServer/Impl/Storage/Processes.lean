import GaiaServer.Framework.Monitor
import GaiaServer.Impl.Storage.Stores

/-!
# Processes that share the stores

Any number of processes that call the methods of `JetStreamEventStore` and of
`EtcdMetadataStore` (`StoreCall`), each on its own, client call by client call
(`processes`). Nothing locks.
-/

namespace Gaia.Storage

/-- A call of a method of the event store or of the metadata store. -/
inductive StoreCall
  | writeEvent (envelope : EventEnvelope)
  | readEvents (stream : String) (afterSequence : Option Int) (limit : Int)
  | get (k : String)
  | put (k : String) (value : Bytes)
  | delete (k : String)
  | compareAndSwap (k : String) (expected value : Bytes)
  | getPrefix (start : String)

/-- What it returns. -/
abbrev StoreCall.Result : StoreCall → Type
  | .writeEvent _ => String
  | .readEvents .. => List EventEnvelope
  | .get _ => Option Bytes
  | .put .. => Unit
  | .delete _ => Unit
  | .compareAndSwap .. => Bool
  | .getPrefix _ => List (Bytes × String)

variable (core : Codec) (metadata : EtcdMetadataStore)

def StoreCall.program : (c : StoreCall) → Store c.Result
  | .writeEvent envelope => JetStreamEventStore.writeEvent core envelope
  | .readEvents stream afterSequence limit =>
    JetStreamEventStore.readEvents core stream afterSequence limit
  | .get k => metadata.get k
  | .put k value => metadata.put k value
  | .delete k => metadata.delete k
  | .compareAndSwap k expected value => metadata.compareAndSwap k expected value
  | .getPrefix start => metadata.getPrefix start

/-- The stores, used by processes. -/
def processes : Monitor StoreCall StoreCall.Result StoreOp StoreRes Exc World where
  handler := World.handle
  body := StoreCall.program core metadata
  locked _ := false

end Gaia.Storage
