import GaiaServer.Impl.Sandbox.GuestSandbox

/-!
# The methods of the sandbox

What each method ends with and leaves, from what the modules outside do during the
call: steps 1 and 2 leave the sandbox as it is (`installGate_run`, `launch_run`), an
admission that passes them registers the guest whatever comes after
(`admitGuest_run`), and a termination deletes the record whatever comes after
(`terminateGuest_run`).
-/

namespace Gaia.Sandbox

open Prog (run_bind run_perform run_lift run_tryCatch run_ret run_raise)

variable {out : Outside} {s : GuestSandbox}

/-! ## Admission -/

/-- What the handlers of steps 1 and 2 make of an outcome. -/
def orAdmission {α : Type} (stub : α) (text : String) : Except Raised α → Except Raised α
  | .ok a => .ok a
  | .error exc =>
    if exc.kind = .importError then .ok stub
    else if exc.isException then .error ⟨.admission, text ++ exc.text⟩
    else .error exc

/-- What the handler of an optional module makes of an outcome. -/
def orIgnored {α : Type} (stub : α) : Except Raised α → Except Raised α
  | .ok a => .ok a
  | .error exc => if exc.kind = .importError then .ok stub else .error exc

namespace Outside

variable (out : Outside)

/-- What step 1 ends with. -/
def gate (packageUrl tenantId : String) : Except Raised Unit :=
  orAdmission () "Guest rejected at Codex install gate: " do
    out.importGate
    out.enforceCodexOnInstall packageUrl tenantId

/-- What step 2 ends with. -/
def launch (packageUrl intent : String) : Except Raised LaunchResult :=
  orAdmission (stubResult packageUrl) "UNIVERSE.launch_app failed: " do
    out.importUniverse
    out.newUniverse
    out.launchApp packageUrl intent

/-- What steps 1 and 2 end with. -/
def passed (tenantId packageUrl intent : String) : Except Raised LaunchResult := do
  out.gate packageUrl tenantId
  out.launch packageUrl intent

/-- What the energy report ends with. -/
def energy (guestId : String) (profile : Profile) (tenantId nodeId : String) :
    Except Raised Unit :=
  orIgnored () do
    out.importMonitor
    out.report guestId profile tenantId nodeId

/-- The Codex that a sandbox without one gets. -/
def lazyCodex : Except Raised Codex :=
  orIgnored .stub do
    out.importCodex
    out.newCodex
    return .runtime

/-- What the final seal of a sandbox ends with. -/
def finalSeal (codex : Option Codex) : Except Raised Unit := do
  let codex ← codex.elim out.lazyCodex .ok
  match codex with
  | .stub => return ()
  | .runtime => out.invokeStage "Joyful Rejoicing of Celebration"

end Outside

theorem run_orAdmissionError {α : Type} {p : Method α} {r : Except Raised α} (stub : α)
    (text : String) (hp : p.run (handle out) s = (r, s)) :
    (p.tryCatch (orAdmissionError stub text)).run (handle out) s =
      (orAdmission stub text r, s) := by
  rw [run_tryCatch, hp]
  cases r with
  | ok a => rfl
  | error exc =>
    simp only [orAdmissionError, orAdmission]
    split
    · rfl
    · split <;> rfl

theorem run_orStub {α : Type} {p : Method α} {r : Except Raised α} (stub : α)
    (hp : p.run (handle out) s = (r, s)) :
    (p.tryCatch (orStub stub)).run (handle out) s = (orIgnored stub r, s) := by
  rw [run_tryCatch, hp]
  cases r with
  | ok a => rfl
  | error exc =>
    simp only [orStub, orIgnored]
    split <;> rfl

theorem installGate_run (packageUrl tenantId : String) :
    (installGate packageUrl tenantId).run (handle out) s = (out.gate packageUrl tenantId, s) := by
  refine run_orAdmissionError () _ ?_
  simp only [Prog.bind_eq, run_bind, run_perform, handle]
  cases out.importGate <;> rfl

theorem launch_run (packageUrl intent : String) :
    (launch packageUrl intent).run (handle out) s = (out.launch packageUrl intent, s) := by
  refine run_orAdmissionError _ _ ?_
  simp only [Prog.bind_eq, run_bind, run_perform, handle]
  cases out.importUniverse with
  | error exc => rfl
  | ok _ => cases out.newUniverse <;> rfl

theorem reportEnergyDraw_run (guestId : String) (profile : Profile) :
    (reportEnergyDraw guestId profile).run (handle out) s =
      (out.energy guestId profile s.tenantId s.nodeId, s) := by
  unfold reportEnergyDraw
  rw [Prog.bind_eq, run_bind, run_perform]
  refine run_orStub () ?_
  simp only [Prog.bind_eq, run_bind, run_perform, handle]
  cases out.importMonitor <;> rfl

/-- The record of a launched guest, registered. -/
def GuestSandbox.register (s : GuestSandbox) (packageUrl intent : String) (result : LaunchResult)
    (profile : Profile) : GuestSandbox :=
  { s with activeGuests :=
      s.activeGuests.set (s.tenantId ++ ":" ++ packageUrl) ⟨packageUrl, intent, result, profile⟩ }

/-- What comes after the registration. -/
def Outside.reply (out : Outside) (tenantId nodeId guestId : String) (result : LaunchResult)
    (profile : Profile) : Except Raised Admission := do
  out.energy guestId profile tenantId nodeId
  let status ← result.getItem "status" (.str "unknown")
  let codexAligned ← result.getItem "codex_aligned" (.bool false)
  return ⟨guestId, status, tenantId, nodeId, codexAligned, profile⟩

/-- What raises after the registration: the energy report, or a `get` of the result. -/
def Outside.afterwards (out : Outside) (tenantId nodeId guestId : String) (result : LaunchResult)
    (profile : Profile) : Except Raised Unit := do
  out.energy guestId profile tenantId nodeId
  let _ ← result.getItem "status" (.str "unknown")
  let _ ← result.getItem "codex_aligned" (.bool false)

theorem reply_of_afterwards (out : Outside) (tenantId nodeId guestId : String)
    (result : LaunchResult) (profile : Profile) :
    (out.reply tenantId nodeId guestId result profile).map (fun _ => ()) =
      out.afterwards tenantId nodeId guestId result profile := by
  unfold Outside.reply Outside.afterwards
  cases out.energy guestId profile tenantId nodeId with
  | error exc => rfl
  | ok _ =>
    cases result.getItem "status" (.str "unknown") with
    | error exc => rfl
    | ok status => cases result.getItem "codex_aligned" (.bool false) <;> rfl

theorem reply_guestId {tenantId nodeId guestId : String} {result : LaunchResult}
    {profile : Profile} {reply : Admission}
    (h : out.reply tenantId nodeId guestId result profile = .ok reply) :
    reply.guestId = guestId := by
  unfold Outside.reply at h
  cases he : out.energy guestId profile tenantId nodeId with
  | error exc =>
    rw [he] at h
    cases h
  | ok _ =>
    cases hs : result.getItem "status" (.str "unknown") with
    | error exc =>
      rw [he, hs] at h
      cases h
    | ok status =>
      cases hc : result.getItem "codex_aligned" (.bool false) with
      | error exc =>
        rw [he, hs, hc] at h
        cases h
      | ok codexAligned =>
        rw [he, hs, hc] at h
        cases h
        rfl

/-- The reply raises what the calls after the registration raise. -/
theorem reply_error_iff {tenantId nodeId guestId : String} {result : LaunchResult}
    {profile : Profile} {exc : Raised} :
    out.reply tenantId nodeId guestId result profile = .error exc ↔
      out.afterwards tenantId nodeId guestId result profile = .error exc := by
  rw [← reply_of_afterwards]
  cases out.reply tenantId nodeId guestId result profile with
  | error raised => simp [Except.map]
  | ok reply => simp [Except.map]

/-- An admission that passes steps 1 and 2 registers the guest, whatever comes
after. -/
theorem admitGuest_run (out : Outside) (s : GuestSandbox) (packageUrl intent : String)
    (resourceProfile : Option Profile) :
    (admitGuest packageUrl intent resourceProfile).run (handle out) s =
      match out.passed s.tenantId packageUrl intent with
      | .error exc => (.error exc, s)
      | .ok result =>
        (out.reply s.tenantId s.nodeId (s.tenantId ++ ":" ++ packageUrl) result
          (profileOf resourceProfile), s.register packageUrl intent result
            (profileOf resourceProfile)) := by
  unfold admitGuest Outside.passed
  simp only [Prog.bind_eq, run_bind, run_perform, handle, installGate_run, launch_run,
    reportEnergyDraw_run, run_lift, Prog.pure_eq, run_ret]
  cases out.gate packageUrl s.tenantId with
  | error exc => rfl
  | ok _ =>
    cases out.launch packageUrl intent with
    | error exc => simp [bind, Except.bind]
    | ok result =>
      simp only [bind, Except.bind, Outside.reply, GuestSandbox.register]
      cases out.energy (s.tenantId ++ ":" ++ packageUrl) (profileOf resourceProfile) s.tenantId
          s.nodeId with
      | error exc => rfl
      | ok _ =>
        cases result.getItem "status" (.str "unknown") with
        | error exc => rfl
        | ok status => cases result.getItem "codex_aligned" (.bool false) <;> rfl

/-! ## Termination -/

theorem lazyCodex_run :
    (Prog.tryCatch (do
      call .importCodex
      call .newCodex
      return .runtime) (orStub .stub)).run (handle out) s = (out.lazyCodex, s) := by
  refine run_orStub Codex.stub ?_
  simp only [Prog.bind_eq, Prog.pure_eq, run_bind, run_perform, handle]
  cases out.importCodex with
  | error exc => rfl
  | ok _ => cases out.newCodex <;> rfl

theorem getCodex_run (out : Outside) (s : GuestSandbox) : ∃ codex, getCodex.run (handle out) s =
    (s.codex.elim out.lazyCodex .ok, { s with codex := codex }) := by
  obtain ⟨tenantId, nodeId, codex, activeGuests⟩ := s
  unfold getCodex
  rw [Prog.bind_eq, run_bind, run_perform]
  cases codex with
  | some codex => exact ⟨some codex, rfl⟩
  | none =>
    dsimp only [handle, Option.elim]
    rw [Prog.bind_eq, run_bind, lazyCodex_run]
    cases out.lazyCodex with
    | error exc => exact ⟨none, rfl⟩
    | ok codex => exact ⟨some codex, rfl⟩

/-- A termination deletes the record that there is, whatever comes after. -/
theorem terminateGuest_run (out : Outside) (s : GuestSandbox) (guestId : String) : ∃ codex,
    (terminateGuest guestId).run (handle out) s =
      if s.activeGuests.contains guestId then
        ((out.finalSeal s.codex).map fun _ => ⟨guestId, "terminated", true⟩,
          { s with codex := codex, activeGuests := s.activeGuests.erase guestId })
      else (.ok ⟨guestId, "not_found", true⟩, s) := by
  unfold terminateGuest
  rw [Prog.bind_eq, run_bind, run_perform]
  dsimp only [handle]
  cases s.activeGuests.contains guestId with
  | false => exact ⟨none, rfl⟩
  | true =>
    obtain ⟨codex, hcodex⟩ := getCodex_run out
      { s with activeGuests := s.activeGuests.erase guestId }
    refine ⟨codex, ?_⟩
    simp only [if_true, Prog.bind_eq, run_bind, run_perform, handle, hcodex, Outside.finalSeal]
    cases s.codex.elim out.lazyCodex .ok with
    | error exc => rfl
    | ok codex =>
      cases codex with
      | stub => rfl
      | runtime =>
        simp only [run_bind, run_perform, handle, bind, Except.bind]
        cases out.invokeStage "Joyful Rejoicing of Celebration" <;> rfl

end Gaia.Sandbox
