import GaiaServer.Impl.Ipc.Group
import GaiaServer.Impl.Ipc.Methods

/-!
# A broadcast group whose actors have threads

A group as in `Impl.Ipc.Group`, each of whose objects is used by any number of threads at
once, access by access as in `Impl.Ipc.Methods`. A thread may call any method at any time;
what a call of `send` has returned can be handed to the network, and only what the network
has is passed to `receive`, any number of times and to any actor.
-/

namespace Gaia.Ipc

open Methods Monitor

variable {η π ι κ : Type}

/-- A thread between two calls: with nothing, or with what came of its last call. -/
inductive Between (π : Type)
  | idle
  | sent (msg : BroadcastMessage π)
  | received (msg : BroadcastMessage π)
  deriving DecidableEq

/-- What has come of a call. -/
def after : (m : BroadcastMethod η π) → Except Left (BroadcastRes m) → Between π
  | .send .., .ok msg => .sent msg
  | .receive msg, .ok () => .received msg
  | _, _ => .idle

/-- The call of a method. -/
def calling (m : BroadcastMethod η π) :
    Prog (BroadcastMethod η π) BroadcastRes Left (Between π) :=
  .call m fun r => .ret (after m r)

/-- An object and its threads. -/
abbrev Actor (η π κ : Type) :=
  Config (BroadcastMethod η π) BroadcastRes (Access η π) AccessRes Left (Between π) (Shared η π) κ

/-- The actors, the messages that calls of `send` have handed to the network, and the calls of
`receive` that are over. -/
structure ThreadedNet (η π ι κ : Type) where
  actor : ι → Actor η π κ
  sent : List (BroadcastMessage π)
  received : List (ι × BroadcastMessage π)

namespace ThreadedNet

/-- Fresh objects, and threads that have not called them. -/
def initial (G : Group ι) : ThreadedNet η π ι κ where
  actor i := init (fun _ => .ret .idle) (.new (G.name i))
  sent := []
  received := []

/-- The calls that a thread may make: of `send` with a kind in `K`, and of `receive` with what
has been sent. -/
def Allowed (K : String → Prop) (sent : List (BroadcastMessage π)) : BroadcastMethod η π → Prop
  | .send kind .. => K kind
  | .receive msg => msg ∈ sent
  | _ => True

variable [DecidableEq ι] [DecidableEq κ]

/-- Actor `i` has come to `C`. -/
def setActor (N : ThreadedNet η π ι κ) (i : ι) (C : Actor η π κ) : ThreadedNet η π ι κ :=
  { N with actor := Function.update N.actor i C }

omit [DecidableEq κ] in
@[simp] theorem setActor_actor (N : ThreadedNet η π ι κ) (i : ι) (C : Actor η π κ) :
    (N.setActor i C).actor = Function.update N.actor i C := rfl

omit [DecidableEq κ] in
@[simp] theorem setActor_self (N : ThreadedNet η π ι κ) (i : ι) : N.setActor i (N.actor i) = N := by
  rw [setActor, Function.update_eq_self]

omit [DecidableEq κ] in
@[simp] theorem setActor_setActor (N : ThreadedNet η π ι κ) (i : ι) (C C' : Actor η π κ) :
    (N.setActor i C).setActor i C' = N.setActor i C' := by
  rw [setActor, setActor_actor, Function.update_idem]
  rfl

/-- What came of a call of actor `i` is made known. -/
def post (N : ThreadedNet η π ι κ) (i : ι) : Between π → ThreadedNet η π ι κ
  | .idle => N
  | .sent msg => { N with sent := msg :: N.sent }
  | .received msg => { N with received := (i, msg) :: N.received }

/-- A thread decides on a call, takes a step, or makes known what came of its call. -/
inductive Step (outcome : ι → Outcome η π) (capacity : Nat) (K : String → Prop) :
    ThreadedNet η π ι κ → ThreadedNet η π ι κ → Prop
  | call {N i j m} (hj : (N.actor i).workers j = .outside (.ret .idle))
      (hm : Allowed K N.sent m) :
      Step outcome capacity K N (N.setActor i ((N.actor i).resume j (calling m)))
  | run {N i C} (hs : Monitor.Step (broadcastMonitor (outcome i) capacity) (N.actor i) C) :
      Step outcome capacity K N (N.setActor i C)
  | post {N i j d} (hj : (N.actor i).workers j = .outside (.ret d)) :
      Step outcome capacity K N ((N.setActor i ((N.actor i).resume j (.ret .idle))).post i d)

/-- The states that runs of the group reach. -/
inductive Reachable (outcome : ι → Outcome η π) (capacity : Nat) (G : Group ι)
    (K : String → Prop) : ThreadedNet η π ι κ → Prop
  | initial : Reachable outcome capacity G K (initial G)
  | step {N N'} (hr : Reachable outcome capacity G K N) (hs : Step outcome capacity K N N') :
      Reachable outcome capacity G K N'

end ThreadedNet

end Gaia.Ipc
