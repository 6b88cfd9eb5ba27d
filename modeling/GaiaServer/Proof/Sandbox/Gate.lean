import GaiaServer.Framework.Trace
import GaiaServer.Proof.Sandbox.Methods

/-!
# The install gate

The operations of an admission, step by step (`admitGuest_trace`): the launch follows
if step 1 lets the guest pass, and the registration if step 2 does. Both let an
`ImportError` pass, the hypervisor's own among them. So of an installed hypervisor the
gate fails closed exactly if none of the calls raises one (`failsClosed_iff`).
-/

namespace Gaia.Sandbox

open Prog (run_bind run_perform run_tryCatch trace_bind trace_perform trace_tryCatch trace_lift)

variable {out : Outside} {s : GuestSandbox} {packageUrl intent : String}
  {resourceProfile : Option Profile}

/-! ## The operations of an admission -/

theorem trace_orAdmissionError {α : Type} (stub : α) (text : String) (exc : Raised) :
    (orAdmissionError stub text exc).trace (handle out) s = [] := by
  unfold orAdmissionError
  split
  · rfl
  · split <;> rfl

theorem trace_guarded {α : Type} (p : Method α) (stub : α) (text : String) :
    (p.tryCatch (orAdmissionError stub text)).trace (handle out) s = p.trace (handle out) s := by
  rw [trace_tryCatch]
  rcases p.run (handle out) s with ⟨exc | a, s'⟩
  · exact (congrArg _ (trace_orAdmissionError stub text exc)).trans (List.append_nil _)
  · exact List.append_nil _

theorem installGate_trace (packageUrl tenantId : String) :
    (installGate packageUrl tenantId).trace (handle out) s =
      .importGate :: match out.importGate with
        | .ok _ => [.enforceCodexOnInstall packageUrl tenantId]
        | .error _ => [] := by
  unfold installGate
  rw [trace_guarded, Prog.bind_eq, trace_bind, trace_perform, run_perform]
  dsimp only [handle]
  cases out.importGate with
  | error exc => rfl
  | ok _ => exact congrArg (SandboxOp.importGate :: ·) (trace_perform ..)

theorem launch_trace (packageUrl intent : String) :
    (launch packageUrl intent).trace (handle out) s =
      .importUniverse :: match out.importUniverse with
        | .error _ => []
        | .ok _ => .newUniverse :: match out.newUniverse with
          | .error _ => []
          | .ok _ => [.launchApp packageUrl intent] := by
  unfold launch
  rw [trace_guarded, Prog.bind_eq, trace_bind, trace_perform, run_perform]
  dsimp only [handle]
  cases out.importUniverse with
  | error exc => rfl
  | ok _ =>
    dsimp only
    rw [Prog.bind_eq, trace_bind, trace_perform, run_perform]
    dsimp only [handle]
    cases out.newUniverse with
    | error exc => rfl
    | ok _ =>
      exact congrArg (SandboxOp.importUniverse :: SandboxOp.newUniverse :: ·) (trace_perform ..)

/-- The operations of the energy report. -/
def IsReport : SandboxOp → Prop
  | .self | .importMonitor | .report .. => True
  | _ => False

theorem reportEnergyDraw_only (guestId : String) (profile : Profile) :
    (reportEnergyDraw guestId profile).Only IsReport := by
  refine .bind (Prog.only_perform.mpr trivial) fun self => .tryCatch ?_ fun exc => ?_
  · exact .bind (Prog.only_perform.mpr trivial) fun _ => Prog.only_perform.mpr trivial
  · unfold orStub
    split <;> trivial

/-- The operations of an admission. -/
def admissionOps (out : Outside) (s : GuestSandbox) (packageUrl intent : String)
    (resourceProfile : Option Profile) : List SandboxOp :=
  (admitGuest packageUrl intent resourceProfile).trace (handle out) s

/-- The launch follows if step 1 lets the guest pass, and the registration if step 2
does. -/
theorem admitGuest_trace (out : Outside) (s : GuestSandbox) (packageUrl intent : String)
    (resourceProfile : Option Profile) : ∃ rest, (∀ op ∈ rest, IsReport op) ∧
    admissionOps out s packageUrl intent resourceProfile =
      .self :: ((installGate packageUrl s.tenantId).trace (handle out) s ++
        match out.gate packageUrl s.tenantId with
        | .error _ => []
        | .ok _ => (launch packageUrl intent).trace (handle out) s ++
          match out.launch packageUrl intent with
          | .error _ => []
          | .ok result => .setGuest (s.tenantId ++ ":" ++ packageUrl)
              ⟨packageUrl, intent, result, profileOf resourceProfile⟩ :: rest) := by
  unfold admissionOps admitGuest
  rw [Prog.bind_eq, trace_bind, trace_perform, run_perform]
  dsimp only [handle]
  rw [Prog.bind_eq, trace_bind, installGate_run]
  cases out.gate packageUrl s.tenantId with
  | error exc => exact ⟨[], fun _ h => absurd h List.not_mem_nil, rfl⟩
  | ok _ =>
    dsimp only
    rw [Prog.bind_eq, trace_bind, launch_run]
    cases out.launch packageUrl intent with
    | error exc => exact ⟨[], fun _ h => absurd h List.not_mem_nil, rfl⟩
    | ok result =>
      refine ⟨_, fun op hop => Prog.Only.mem_trace (handle out) ?_ hop, rfl⟩
      refine .bind (Prog.only_lift _) fun _ => .bind (reportEnergyDraw_only ..) fun _ => ?_
      exact .bind (Prog.only_lift _) fun _ => .bind (Prog.only_lift _) fun _ => trivial

/-- The operations before the energy report. -/
theorem mem_admissionOps {op : SandboxOp} (hop : ¬ IsReport op) :
    op ∈ admissionOps out s packageUrl intent resourceProfile ↔
      op ∈ (installGate packageUrl s.tenantId).trace (handle out) s ∨
        out.gate packageUrl s.tenantId = .ok () ∧
          (op ∈ (launch packageUrl intent).trace (handle out) s ∨
            ∃ result, out.launch packageUrl intent = .ok result ∧
              op = .setGuest (s.tenantId ++ ":" ++ packageUrl)
                ⟨packageUrl, intent, result, profileOf resourceProfile⟩) := by
  obtain ⟨rest, hrest, hops⟩ := admitGuest_trace out s packageUrl intent resourceProfile
  have hself : op ≠ .self := fun h => hop (h ▸ trivial)
  have hmem : op ∉ rest := fun h => hop (hrest op h)
  rw [hops, List.mem_cons, or_iff_right hself, List.mem_append]
  refine or_congr_right ?_
  cases out.gate packageUrl s.tenantId with
  | error exc => simp
  | ok _ =>
    simp only [List.mem_append, true_and]
    refine or_congr_right ?_
    cases out.launch packageUrl intent with
    | error exc => simp
    | ok result => simp [hmem]

/-! ## An installed hypervisor -/

/-- Both modules of gaia_hypervisor can be imported. -/
structure Outside.Installed (out : Outside) : Prop where
  gate : out.importGate = .ok ()
  core : out.importUniverse = .ok ()

theorem gate_installed (hi : out.Installed) (url tenant : String) : out.gate url tenant =
    orAdmission () "Guest rejected at Codex install gate: "
      (out.enforceCodexOnInstall url tenant) := by
  rw [Outside.gate, hi.gate]
  rfl

theorem launch_installed (hi : out.Installed) (packageUrl intent : String) :
    out.launch packageUrl intent =
      orAdmission (stubResult packageUrl) "UNIVERSE.launch_app failed: "
        (out.newUniverse >>= fun _ => out.launchApp packageUrl intent) := by
  rw [Outside.launch, hi.core]
  rfl

theorem orAdmission_eq_ok {α : Type} {stub a : α} {text : String} {r : Except Raised α} :
    orAdmission stub text r = .ok a ↔
      r = .ok a ∨ (∃ exc, r = .error exc ∧ exc.kind = .importError) ∧ stub = a := by
  cases r with
  | ok b => simp [orAdmission]
  | error exc =>
    simp only [orAdmission]
    split
    · simp_all
    · split <;> simp_all

theorem importUniverse_mem :
    .importUniverse ∈ admissionOps out s packageUrl intent resourceProfile ↔
      out.gate packageUrl s.tenantId = .ok () := by
  rw [mem_admissionOps (by simp [IsReport]), installGate_trace, launch_trace]
  cases out.importGate <;> simp

theorem launchApp_mem (hi : out.Installed) {url purpose : String} :
    .launchApp url purpose ∈ admissionOps out s packageUrl intent resourceProfile ↔
      out.gate packageUrl s.tenantId = .ok () ∧ out.newUniverse = .ok () ∧
        url = packageUrl ∧ purpose = intent := by
  rw [mem_admissionOps (by simp [IsReport]), installGate_trace, launch_trace, hi.gate, hi.core]
  cases out.newUniverse <;> simp

theorem setGuest_mem {guestId : String} {guest : Guest} :
    .setGuest guestId guest ∈ admissionOps out s packageUrl intent resourceProfile ↔
      out.gate packageUrl s.tenantId = .ok () ∧
        ∃ result, out.launch packageUrl intent = .ok result ∧
          guestId = s.tenantId ++ ":" ++ packageUrl ∧
            guest = ⟨packageUrl, intent, result, profileOf resourceProfile⟩ := by
  rw [mem_admissionOps (by simp [IsReport]), installGate_trace, launch_trace]
  cases out.importGate <;> cases out.importUniverse <;> cases out.newUniverse <;> simp

/-! ## The gate -/

/-- The admission raises a `SandboxAdmissionError` and leaves the sandbox as it is. -/
def Rejected (out : Outside) (s : GuestSandbox) (packageUrl intent : String)
    (resourceProfile : Option Profile) : Prop :=
  ∃ text, (admitGuest packageUrl intent resourceProfile).run (handle out) s =
    (.error ⟨.admission, text⟩, s)

/-- An exception of the gate function rejects the guest before the launch, one of
`launch_app` rejects it too, and neither step goes on without its call's return. -/
structure FailsClosed (out : Outside) (s : GuestSandbox) (packageUrl intent : String)
    (resourceProfile : Option Profile) : Prop where
  gate : ∀ exc, out.enforceCodexOnInstall packageUrl s.tenantId = .error exc → exc.isException →
    Rejected out s packageUrl intent resourceProfile ∧
      ∀ url purpose, .launchApp url purpose ∉ admissionOps out s packageUrl intent resourceProfile
  launch : ∀ exc, out.enforceCodexOnInstall packageUrl s.tenantId = .ok () →
    out.newUniverse = .ok () → out.launchApp packageUrl intent = .error exc → exc.isException →
      Rejected out s packageUrl intent resourceProfile
  gated : .importUniverse ∈ admissionOps out s packageUrl intent resourceProfile →
    out.enforceCodexOnInstall packageUrl s.tenantId = .ok ()
  launched : ∀ guestId guest,
    .setGuest guestId guest ∈ admissionOps out s packageUrl intent resourceProfile →
      .launchApp packageUrl intent ∈ admissionOps out s packageUrl intent resourceProfile ∧
        out.launchApp packageUrl intent = .ok guest.result

def RaisesImportError {α : Type} (r : Except Raised α) : Prop :=
  ∃ exc, r = .error exc ∧ exc.kind = .importError

/-- None of the calls that an admission makes of the hypervisor raises an
`ImportError`. -/
structure NoImportError (out : Outside) (tenantId packageUrl intent : String) : Prop where
  enforce : ¬ RaisesImportError (out.enforceCodexOnInstall packageUrl tenantId)
  newUniverse : out.enforceCodexOnInstall packageUrl tenantId = .ok () →
    ¬ RaisesImportError out.newUniverse
  launchApp : out.enforceCodexOnInstall packageUrl tenantId = .ok () → out.newUniverse = .ok () →
    ¬ RaisesImportError (out.launchApp packageUrl intent)

theorem rejected_of_passed {text : String}
    (h : out.passed s.tenantId packageUrl intent = .error ⟨.admission, text⟩) :
    Rejected out s packageUrl intent resourceProfile :=
  ⟨text, by rw [admitGuest_run, h]⟩

theorem orAdmission_error {α : Type} {stub : α} {text : String} {exc : Raised}
    (hk : exc.kind ≠ .importError) (he : exc.isException) :
    orAdmission stub text (.error exc) = .error ⟨.admission, text ++ exc.text⟩ := by
  simp [orAdmission, hk, he]

/-- Without an `ImportError` of the calls, a step returns only what its calls do. -/
theorem orAdmission_ok {α : Type} {stub a : α} {text : String} {r : Except Raised α}
    (hr : ¬ RaisesImportError r) (h : orAdmission stub text r = .ok a) : r = .ok a := by
  rcases orAdmission_eq_ok.mp h with h | ⟨himport, -⟩
  · exact h
  · exact absurd himport hr

/-- What step 2 returns without an `ImportError` is what `launch_app` returned. -/
theorem launch_returned (hi : out.Installed) {result : LaunchResult}
    (hnew : ¬ RaisesImportError out.newUniverse)
    (happ : out.newUniverse = .ok () → ¬ RaisesImportError (out.launchApp packageUrl intent))
    (h : out.launch packageUrl intent = .ok result) :
    out.newUniverse = .ok () ∧ out.launchApp packageUrl intent = .ok result := by
  rw [launch_installed hi] at h
  cases hu : out.newUniverse with
  | error exc =>
    rw [hu] at h
    rcases orAdmission_eq_ok.mp h with hr | ⟨⟨exc', hexc', hk⟩, -⟩
    · cases hr
    · cases hexc'
      exact absurd ⟨exc, hu, hk⟩ hnew
  | ok _ =>
    rw [hu] at h
    exact ⟨rfl, orAdmission_ok (happ hu) h⟩

theorem failsClosed_of_noImportError (hi : out.Installed)
    (h : NoImportError out s.tenantId packageUrl intent) :
    FailsClosed out s packageUrl intent resourceProfile := by
  have hgate := gate_installed hi packageUrl s.tenantId
  have hlaunch := launch_installed hi packageUrl intent
  have hpass : out.gate packageUrl s.tenantId = .ok () →
      out.enforceCodexOnInstall packageUrl s.tenantId = .ok () := by
    intro hg
    rw [hgate] at hg
    exact orAdmission_ok h.enforce hg
  constructor
  · intro exc hexc he
    have hk : exc.kind ≠ .importError := fun hk => h.enforce ⟨exc, hexc, hk⟩
    rw [hexc, orAdmission_error hk he] at hgate
    refine ⟨rejected_of_passed (by rw [Outside.passed, hgate]; rfl), fun url purpose hmem => ?_⟩
    have hg := ((launchApp_mem hi).mp hmem).1
    rw [hgate] at hg
    cases hg
  · intro exc hok hnew hexc he
    have hk : exc.kind ≠ .importError := fun hk => h.launchApp hok hnew ⟨exc, hexc, hk⟩
    have hfail : out.launch packageUrl intent =
        .error ⟨.admission, "UNIVERSE.launch_app failed: " ++ exc.text⟩ := by
      rw [hlaunch, hnew, hexc]
      exact orAdmission_error hk he
    exact rejected_of_passed (by rw [Outside.passed, hgate, hok]; exact hfail)
  · intro hmem
    exact hpass (importUniverse_mem.mp hmem)
  · intro guestId guest hmem
    obtain ⟨hg, result, hresult, -, rfl⟩ := setGuest_mem.mp hmem
    have hok := hpass hg
    obtain ⟨hnew, happ⟩ := launch_returned hi (h.newUniverse hok) (h.launchApp hok) hresult
    exact ⟨(launchApp_mem hi).mpr ⟨hg, hnew, rfl, rfl⟩, happ⟩

/-- Of an installed hypervisor, the gate fails closed exactly if none of its calls
raises an `ImportError`. -/
theorem failsClosed_iff (out : Outside) (hi : out.Installed) (s : GuestSandbox)
    (packageUrl intent : String) (resourceProfile : Option Profile) :
    FailsClosed out s packageUrl intent resourceProfile ↔
      NoImportError out s.tenantId packageUrl intent := by
  refine ⟨fun h => ?_, failsClosed_of_noImportError hi⟩
  have hgate := gate_installed hi packageUrl s.tenantId
  have hlaunch := launch_installed hi packageUrl intent
  -- What is launched without `launch_app` is registered all the same.
  have hstub : out.enforceCodexOnInstall packageUrl s.tenantId = .ok () →
      out.launch packageUrl intent = .ok (stubResult packageUrl) → out.newUniverse = .ok () ∧
        out.launchApp packageUrl intent = .ok (stubResult packageUrl) := by
    intro hok hstub
    have hg : out.gate packageUrl s.tenantId = .ok () := by rw [hgate, hok]; rfl
    obtain ⟨happ, hres⟩ := h.launched _ _ (setGuest_mem.mpr ⟨hg, _, hstub, rfl, rfl⟩)
    exact ⟨((launchApp_mem hi).mp happ).2.1, hres⟩
  constructor
  · intro ⟨exc, hexc, hk⟩
    have hg : out.gate packageUrl s.tenantId = .ok () := by
      rw [hgate]
      exact orAdmission_eq_ok.mpr (.inr ⟨⟨exc, hexc, hk⟩, rfl⟩)
    have hok := h.gated (importUniverse_mem.mpr hg)
    rw [hexc] at hok
    cases hok
  · intro hok ⟨exc, hexc, hk⟩
    have hnew := (hstub hok (by rw [hlaunch, hexc]; exact if_pos hk)).1
    rw [hexc] at hnew
    cases hnew
  · intro hok hnew ⟨exc, hexc, hk⟩
    have happ := (hstub hok (by rw [hlaunch, hnew, hexc]; exact if_pos hk)).2
    rw [hexc] at happ
    cases happ

/-- A hypervisor that is installed and whose gate function ends so; everything else
returns. -/
def hypervisor (gate : Except Raised Unit) : Outside where
  importCodex := .ok ()
  newCodex := .ok ()
  invokeStage _ := .ok ()
  importGate := .ok ()
  enforceCodexOnInstall _ _ := gate
  importUniverse := .ok ()
  newUniverse := .ok ()
  launchApp _ _ := .ok (.dict [(.str "status", .str "running")])
  importMonitor := .ok ()
  report _ _ _ _ := .ok ()

theorem rejection_closed : FailsClosed (hypervisor (.error ⟨.exception, "misaligned"⟩))
    { tenantId := "acme" } "gaia://app" "to serve" none := by
  refine (failsClosed_iff _ ⟨rfl, rfl⟩ _ _ _ _).mpr ⟨?_, ?_, ?_⟩
  · intro ⟨exc, hexc, hk⟩
    cases hexc
    cases hk
  · intro hok
    cases hok
  · intro hok
    cases hok

/-- A gate function that misses a module of its own. -/
def brokenGate : Outside := hypervisor (.error ⟨.importError, "No module named 'pydantic'"⟩)

/-- Such a gate lets every guest pass. -/
theorem importError_opens : brokenGate.Installed ∧
    ¬ FailsClosed brokenGate { tenantId := "acme" } "gaia://app" "to serve" none := by
  have hi : brokenGate.Installed := ⟨rfl, rfl⟩
  refine ⟨hi, fun h => ?_⟩
  obtain ⟨-, hlaunch⟩ := h.gate _ rfl rfl
  exact hlaunch "gaia://app" "to serve" ((launchApp_mem hi).mpr ⟨rfl, rfl, rfl, rfl⟩)

end Gaia.Sandbox
