import GaiaServer.Framework.Machine
import GaiaServer.Impl.Storage.Stores
import Mathlib.Logic.Function.Basic

/-!
# The metadata store as a map

What the calls of `put` and `delete` on a metadata store leave in it: for each key,
without its leading slashes, the value of the last `put` since the last `delete`
(`contents`). A pair of a key and its value is usable if the other methods, given
that key, act on the entry it was read from (`Usable`).
-/

namespace Gaia.Storage

/-- A call that changes a metadata store. -/
inductive MetadataCall
  | put (key : String) (value : Bytes)
  | delete (key : String)

def MetadataCall.program (s : EtcdMetadataStore) : MetadataCall → Store Unit
  | .put key value => s.put key value
  | .delete key => s.delete key

/-- What one call makes of the map. -/
def MetadataCall.update (m : String → Option Bytes) : MetadataCall → String → Option Bytes
  | .put key value => Function.update m (lstrip '/' key) (some value)
  | .delete key => Function.update m (lstrip '/' key) none

/-- What the calls leave under a key. -/
def contents (cs : List MetadataCall) : String → Option Bytes :=
  Machine.run MetadataCall.update (fun _ => none) cs

namespace EtcdMetadataStore

/-- The stores after the calls, one after another. -/
def calls (s : EtcdMetadataStore) (w : World) (cs : List MetadataCall) : World :=
  Machine.run (fun w c => ((c.program s).run World.handle w).2) w cs

/-- The key of an entry in etcd. -/
def entry (s : EtcdMetadataStore) (k : String) : String := "/" ++ s.ns ++ "/" ++ k

/-- `get`, `delete` and `compare_and_swap` with this key act on the entry that etcd
has under it. -/
structure Usable (s : EtcdMetadataStore) (w : World) (value : Bytes) (key : String) : Prop where
  get : (s.get key).run World.handle w = (.ok (some value), w)
  delete : (s.delete key).run World.handle w = (.ok (), { w with etcd := w.etcd.erase key })
  swap : ∀ new, (s.compareAndSwap key value new).run World.handle w =
    (.ok true, { w with etcd := w.etcd.set key new })

end EtcdMetadataStore

end Gaia.Storage
