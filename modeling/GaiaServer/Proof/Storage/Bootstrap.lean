import GaiaServer.Framework.Resume
import GaiaServer.Proof.Storage.Canonical

/-!
# A bootstrap that is stopped

A server that is stopped while it creates the canonical streams, at any client call, and started
again. `_ensure_stream` creates its stream at once or not at all, and leaves a stream that exists
as it is (`ensureStream_once`), so the bootstrap goes on where it was stopped. A NATS client
without `find_stream`, as nats-py is, lets it create none (`bootstrap_resumes`).
-/

namespace Gaia.Storage

open World
open Prog (Cut Once Exec)

variable {nats : NatsPy} {w w' : World}

/-- A stream is added under a new name, or not. -/
theorem addStream_eq (name : String) (subjects : List String) (w : World) :
    (∃ exc, handle (.addStream name subjects) w = (.error exc, w)) ∨
      w.streams.get? name = none ∧ handle (.addStream name subjects) w =
        (.ok (), { w with streams := w.streams.set name (.create subjects) }) := by
  simp only [handle]
  split
  · exact .inl ⟨_, rfl⟩
  · split
    · exact .inl ⟨_, rfl⟩
    · rename_i hc
      exact .inr ⟨by simpa [Dict.contains] using hc, rfl⟩

theorem ensureStream_missing (hf : nats.findStream = false) :
    ∃ exc, exc.cls = .other "AttributeError" ∧ ∀ name subjects,
      ensureStream nats name subjects = .raise exc := by
  obtain ⟨findStream, notFoundError⟩ := nats
  obtain rfl : findStream = false := hf
  cases notFoundError with
  | false => exact ⟨noNotFoundError, rfl, fun _ _ => rfl⟩
  | true => exact ⟨noFindStream, rfl, fun _ _ => rfl⟩

theorem ensureStream_exists {name : String} (subjects : List String)
    (hf : nats.findStream = true) (h : w.streams.contains name = true) :
    (ensureStream nats name subjects).run handle w = (.ok (), w) := by
  rw [ensureStream, if_pos hf, Prog.run_tryCatch, Prog.run_perform]
  simp only [handle, if_pos h]

theorem ensureStream_new {name : String} (subjects : List String) (hf : nats.findStream = true)
    (hn : nats.notFoundError = true) (h : w.streams.get? name = none) :
    (ensureStream nats name subjects).run handle w = handle (.addStream name subjects) w := by
  have hc : ¬ w.streams.contains name = true := by simp [Dict.contains, h]
  rw [ensureStream, if_pos hf, Prog.run_tryCatch, Prog.run_perform]
  simp only [handle, if_neg hc, hn, Bool.true_eq_false, if_false, if_true, Prog.run_perform]

/-- The handler of `_ensure_stream`: a stream that is not found is added. -/
def recover (nats : NatsPy) (name : String) (subjects : List String) (exc : Exc) : Store Unit :=
  if nats.notFoundError = false then .raise noNotFoundError
  else if exc.cls = .natsNotFoundError then client (.addStream name subjects)
  else .raise exc

theorem ensureStream_eq (hf : nats.findStream = true) (name : String) (subjects : List String) :
    ensureStream nats name subjects =
      .call (.findStream name) fun r => (Prog.lift r).tryCatch (recover nats name subjects) := by
  rw [ensureStream, if_pos hf]
  rfl

/-- What an addition does. -/
def Adds (nats : NatsPy) (name : String) (subjects : List String) (w w' : World) : Prop :=
  nats.notFoundError = true ∧ w.streams.get? name = none ∧
    handle (.addStream name subjects) w = (.ok (), w')

/-- An addition that has been stopped, or has raised, has changed nothing. -/
theorem recover_cut {name : String} {subjects : List String} {exc : Exc}
    (hc : Cut handle (recover nats name subjects exc) w w') :
    w' = w ∨ Adds nats name subjects w w' := by
  rw [recover] at hc
  split at hc
  · cases hc
    exact .inl rfl
  · rename_i hn
    split at hc
    · cases hc with
      | stop => exact .inl rfl
      | effect hc =>
        obtain rfl := hc.lift_inv
        rcases addStream_eq name subjects w with ⟨exc, he⟩ | ⟨hnew, he⟩
        · rw [he]
          exact .inl rfl
        · rw [he]
          exact .inr ⟨Bool.eq_true_of_not_eq_false hn, hnew, he⟩
      | fault e hc => exact .inl hc.lift_inv
    · cases hc
      exact .inl rfl

theorem recover_returns {name : String} {subjects : List String} {exc : Exc}
    (hx : Exec handle (recover nats name subjects exc) w (.ok ()) w') :
    Adds nats name subjects w w' := by
  rw [recover] at hx
  split at hx
  · cases hx
  · rename_i hn
    split at hx
    · cases hx with
      | effect hx =>
        rcases addStream_eq name subjects w with ⟨exc, he⟩ | ⟨hnew, he⟩
        · rw [he] at hx
          cases hx
        · rw [he] at hx
          cases hx
          exact ⟨Bool.eq_true_of_not_eq_false hn, hnew, he⟩
      | fault e hx => cases hx
    · cases hx

/-- Looking for a stream changes nothing. -/
theorem findStream_eq (name : String) (w : World) :
    handle (.findStream name) w = (.ok (), w) ∧ w.streams.contains name = true ∨
      ∃ exc, handle (.findStream name) w = (.error exc, w) := by
  simp only [handle]
  split
  · rename_i hc
    exact .inl ⟨rfl, hc⟩
  · exact .inr ⟨_, rfl⟩

theorem ensureStream_cut {name : String} {subjects : List String}
    (hc : Cut handle (ensureStream nats name subjects) w w') :
    w' = w ∨ nats.findStream = true ∧ Adds nats name subjects w w' := by
  cases hf : nats.findStream with
  | false =>
    obtain ⟨exc, -, he⟩ := ensureStream_missing hf
    rw [he] at hc
    cases hc
    exact .inl rfl
  | true =>
    rw [ensureStream_eq hf] at hc
    cases hc with
    | stop => exact .inl rfl
    | effect hc =>
      rcases findStream_eq name w with ⟨he, -⟩ | ⟨exc, he⟩
      · rw [he] at hc
        cases hc
        exact .inl rfl
      · rw [he] at hc
        exact (recover_cut hc).imp_right fun h => ⟨rfl, h⟩
    | fault exc hc => exact (recover_cut hc).imp_right fun h => ⟨rfl, h⟩

theorem ensureStream_returns {name : String} {subjects : List String}
    (hx : Exec handle (ensureStream nats name subjects) w (.ok ()) w') : nats.findStream = true ∧
      (w' = w ∧ w.streams.contains name = true ∨ Adds nats name subjects w w') := by
  cases hf : nats.findStream with
  | false =>
    obtain ⟨exc, -, he⟩ := ensureStream_missing hf
    rw [he] at hx
    cases hx
  | true =>
    refine ⟨rfl, ?_⟩
    rw [ensureStream_eq hf] at hx
    cases hx with
    | effect hx =>
      rcases findStream_eq name w with ⟨he, hc⟩ | ⟨exc, he⟩
      · rw [he] at hx
        cases hx
        exact .inl ⟨rfl, hc⟩
      · rw [he] at hx
        exact .inr (recover_returns hx)
    | fault exc hx => exact .inr (recover_returns hx)

theorem ensureStream_run {name : String} {subjects : List String}
    (hrun : (ensureStream nats name subjects).run handle w = (.ok (), w')) :
    w' = w ∧ w.streams.contains name = true ∨ Adds nats name subjects w w' := by
  have hx := Exec.of_run (h := handle) (ensureStream nats name subjects) w
  rw [hrun] at hx
  exact (ensureStream_returns hx).2

theorem Adds.contains {name : String} {subjects : List String} (h : Adds nats name subjects w w') :
    w'.streams.contains name = true := by
  obtain ⟨-, -, hrun⟩ := h
  rcases addStream_eq name subjects w with ⟨exc, he⟩ | ⟨-, he⟩
  · cases he.symm.trans hrun
  · cases he.symm.trans hrun
    simp [Dict.contains]

/-- It leaves the other streams as they are. -/
theorem Adds.keeps {name name' : String} {subjects : List String} {s : Stream}
    (h : Adds nats name subjects w w') (hs : w.streams.get? name' = some s) :
    w'.streams.get? name' = some s := by
  obtain ⟨-, hnew, hrun⟩ := h
  rcases addStream_eq name subjects w with ⟨exc, he⟩ | ⟨-, he⟩
  · cases he.symm.trans hrun
  · cases he.symm.trans hrun
    refine (Dict.get?_set_of_ne ?_ ..).trans hs
    rintro rfl
    rw [hnew] at hs
    cases hs

/-- A stream is ensured at once or not at all, and then left as it is. -/
theorem ensureStream_once (hf : nats.findStream = true) (name : String)
    (subjects : List String) :
    Once handle (fun w => w.streams.contains name = true) (ensureStream nats name subjects) where
  cut {w w'} hc := (ensureStream_cut hc).imp_right fun h =>
    (ensureStream_new subjects hf h.2.1 h.2.2.1).trans h.2.2.2
  returns {w w'} hx := by
    rcases (ensureStream_returns hx).2 with ⟨rfl, hc⟩ | h
    · exact ensureStream_exists subjects hf hc
    · exact (ensureStream_new subjects hf h.1 h.2.1).trans h.2.2
  done {w w'} hrun := by
    rcases ensureStream_run hrun with ⟨rfl, hc⟩ | h
    · exact hc
    · exact h.contains
  idle hc := ensureStream_exists subjects hf hc

theorem ensureStream_keeps {name name' : String} {subjects : List String} {s : Stream}
    (hs : w.streams.get? name' = some s)
    (hrun : (ensureStream nats name subjects).run handle w = (.ok (), w')) :
    w'.streams.get? name' = some s := by
  rcases ensureStream_run hrun with ⟨rfl, -⟩ | h
  · exact hs
  · exact h.keeps hs

theorem ensured_kept (a : String × List String) : ∀ c ∈ streams, ∀ {w w' : World},
    w.streams.contains a.1 = true → (ensureStream nats c.1 c.2).run handle w = (.ok (), w') →
    w'.streams.contains a.1 = true := by
  intro c _ w w' hc hrun
  obtain ⟨s, hs⟩ := Option.isSome_iff_exists.mp hc
  exact Option.isSome_iff_exists.mpr ⟨s, ensureStream_keeps hs hrun⟩

theorem streams_once (hf : nats.findStream = true) : ∀ a ∈ streams,
    Once handle (fun w => w.streams.contains a.1 = true) (ensureStream nats a.1 a.2) :=
  fun a _ => ensureStream_once hf a.1 a.2

/-- Without `find_stream`, the bootstrap raises before it has changed anything. -/
theorem ensureStreams_missing (hf : nats.findStream = false) :
    ∃ exc, exc.cls = .other "AttributeError" ∧ ensureStreams nats = .raise exc := by
  obtain ⟨exc, hexc, he⟩ := ensureStream_missing hf
  refine ⟨exc, hexc, ?_⟩
  rw [ensureStreams, funext fun a : String × List String => he a.1 a.2]
  rfl

/-- With a NATS client that has `find_stream`: however often the bootstrap has been stopped, it
has left what was there as it was, and does from there what it would have done at first; and if
it returns, all canonical streams exist. With one that has not: it has changed nothing, and
raises an `AttributeError`. -/
theorem bootstrap_resumes (nats : NatsPy)
    (hc : Relation.ReflTransGen (Cut handle (ensureStreams nats)) w w') :
    (ensureStreams nats).run handle w' = (ensureStreams nats).run handle w ∧
    (∀ name s, w.streams.get? name = some s → w'.streams.get? name = some s) ∧
    (∀ w'', (ensureStreams nats).run handle w' = (.ok (), w'') →
      ∀ a ∈ streams, w''.streams.contains a.1 = true) ∧
    (nats.findStream = false → w' = w ∧
      ∃ exc, exc.cls = .other "AttributeError" ∧
        (ensureStreams nats).run handle w = (.error exc, w)) := by
  cases hf : nats.findStream with
  | false =>
    obtain ⟨exc, hexc, he⟩ := ensureStreams_missing hf
    have hw : w' = w := by
      rw [he] at hc
      induction hc with
      | refl => rfl
      | tail _ hc ih =>
        cases hc
        exact ih
    subst hw
    refine ⟨rfl, fun _ _ hs => hs, fun w'' hrun => ?_, fun _ => ⟨rfl, exc, hexc, by rw [he]; rfl⟩⟩
    rw [he] at hrun
    cases hrun
  | true =>
    refine ⟨Prog.forM_resumes (streams_once hf) ensured_kept hc, fun name s hs => ?_,
      fun w'' hrun => ?_, fun h => ?_⟩
    · induction hc with
      | refl => exact hs
      | tail _ hc ih =>
        obtain ⟨l₁, l₂, -, hl⟩ := Cut.forM (streams_once hf) hc
        exact Prog.forM_keeps (I := fun w => w.streams.get? name = some s)
          (fun _ _ {_ _} => ensureStream_keeps) ih hl
    · exact Prog.forM_done (D := fun a w => w.streams.contains a.1 = true) (streams_once hf)
        ensured_kept hrun
    · cases h

/-- A fresh server, stopped once it has created the first stream. -/
theorem fresh_resumes : ∃ w', w'.streams.contains "gaia-events" = true ∧
    (ensureStreams complete).run handle w' =
      (ensureStreams complete).run handle freshServer ∧
    (∀ name s, freshServer.streams.get? name = some s → w'.streams.get? name = some s) ∧
    (∀ w'', (ensureStreams complete).run handle w' = (.ok (), w'') →
      ∀ a ∈ streams, w''.streams.contains a.1 = true) := by
  obtain ⟨w', hw, hc⟩ : ∃ w', w'.streams.contains "gaia-events" = true ∧
      Cut handle (ensureStreams complete) freshServer w' :=
    ⟨_, by decide, .effect (.effect .stop)⟩
  obtain ⟨hrun, hkept, hdone, -⟩ := bootstrap_resumes complete (.single hc)
  exact ⟨w', hw, hrun, hkept, hdone⟩

end Gaia.Storage
