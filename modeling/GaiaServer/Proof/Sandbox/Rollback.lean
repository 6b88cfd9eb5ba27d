import GaiaServer.Proof.Sandbox.Gate
import GaiaServer.Proof.Sandbox.Guests

/-!
# Guests after a failed call

Steps 1 and 2 of an admission make a `SandboxAdmissionError` of every exception
(`passed_admission`), and there the guests are as they were. The energy report and the
reply come after the registration, and the final seal after the deletion, under no
handler but the one for an `ImportError`: an exception there passes as it is, and the
change stays. So a call that raises keeps the guests exactly if nothing raises there
(`atomic_iff`).
-/

namespace Gaia.Sandbox

variable {out : Outside} {s : GuestSandbox} {packageUrl intent : String} {result : LaunchResult}
  {resourceProfile : Option Profile}

/-! ## What the collaborators raise -/

/-- What is raised, if anything is, is an `Exception`. -/
def Ordinary {α : Type} (r : Except Raised α) : Prop := ∀ exc, r = .error exc → exc.isException

/-- The collaborators raise nothing but `Exception`s. -/
structure Outside.Ordinary (out : Outside) : Prop where
  importCodex : Sandbox.Ordinary out.importCodex
  newCodex : Sandbox.Ordinary out.newCodex
  invokeStage : ∀ stage, Sandbox.Ordinary (out.invokeStage stage)
  importGate : Sandbox.Ordinary out.importGate
  enforceCodexOnInstall : ∀ url tenant, Sandbox.Ordinary (out.enforceCodexOnInstall url tenant)
  importUniverse : Sandbox.Ordinary out.importUniverse
  newUniverse : Sandbox.Ordinary out.newUniverse
  launchApp : ∀ packageUrl intent, Sandbox.Ordinary (out.launchApp packageUrl intent)
  importMonitor : Sandbox.Ordinary out.importMonitor
  report : ∀ source profile tenant node, Sandbox.Ordinary (out.report source profile tenant node)

theorem Ordinary.bind {α β : Type} {r : Except Raised α} {f : α → Except Raised β}
    (hr : Ordinary r) (hf : ∀ a, Ordinary (f a)) : Ordinary (r >>= f) := by
  cases r with
  | error exc => exact fun exc' h => hr exc' (by cases h; rfl)
  | ok a => exact hf a

/-- The handlers of steps 1 and 2 raise nothing but the `SandboxAdmissionError`. -/
theorem orAdmission_admission {α : Type} {stub : α} {text : String} {r : Except Raised α}
    {exc : Raised} (hr : Ordinary r) (h : orAdmission stub text r = .error exc) :
    exc.kind = .admission := by
  cases r with
  | ok a => cases h
  | error raised =>
    simp only [orAdmission, hr raised rfl, if_true] at h
    split at h
    · cases h
    · cases h
      rfl

theorem passed_admission (ho : out.Ordinary) {tenantId : String} {exc : Raised}
    (h : out.passed tenantId packageUrl intent = .error exc) : exc.kind = .admission := by
  have hgate : Ordinary (out.importGate >>= fun _ =>
      out.enforceCodexOnInstall packageUrl tenantId) :=
    ho.importGate.bind fun _ => ho.enforceCodexOnInstall packageUrl tenantId
  have hlaunch : Ordinary (out.importUniverse >>= fun _ => out.newUniverse >>= fun _ =>
      out.launchApp packageUrl intent) :=
    ho.importUniverse.bind fun _ => ho.newUniverse.bind fun _ => ho.launchApp packageUrl intent
  unfold Outside.passed at h
  cases hg : out.gate packageUrl tenantId with
  | error exc' =>
    rw [hg] at h
    cases h
    exact orAdmission_admission hgate hg
  | ok _ =>
    rw [hg] at h
    exact orAdmission_admission hlaunch h

/-! ## The two methods -/

/-- A call of a method that changes the guests. -/
inductive Operation
  | admitGuest (packageUrl intent : String) (resourceProfile : Option Profile)
  | terminateGuest (guestId : String)

/-- If the call raises, the guests and their records are as before, and an admission
raises a `SandboxAdmissionError`. -/
def Atomic (out : Outside) (s : GuestSandbox) : Operation → Prop
  | .admitGuest packageUrl intent resourceProfile => ∀ exc s',
      (admitGuest packageUrl intent resourceProfile).run (handle out) s = (.error exc, s') →
        s'.activeGuests = s.activeGuests ∧ exc.kind = .admission
  | .terminateGuest guestId => ∀ exc s',
      (terminateGuest guestId).run (handle out) s = (.error exc, s') →
        s'.activeGuests = s.activeGuests

/-- What comes after the registration returns; or it raises a `SandboxAdmissionError`
itself, and the very record was there already. What comes after the deletion returns. -/
def Settles (out : Outside) (s : GuestSandbox) : Operation → Prop
  | .admitGuest packageUrl intent resourceProfile => ∀ result,
      out.passed s.tenantId packageUrl intent = .ok result →
        Answers out s packageUrl result resourceProfile ∨
        s.activeGuests.get? (s.tenantId ++ ":" ++ packageUrl) =
            some ⟨packageUrl, intent, result, profileOf resourceProfile⟩ ∧
          ∃ exc, out.afterwards s.tenantId s.nodeId (s.tenantId ++ ":" ++ packageUrl) result
            (profileOf resourceProfile) = .error exc ∧ exc.kind = .admission
  | .terminateGuest guestId =>
      s.activeGuests.contains guestId → out.finalSeal s.codex = .ok ()

/-! ## Admission -/

/-- A registration changes nothing exactly if the record is there already. -/
theorem register_eq_iff {profile : Profile} :
    (s.register packageUrl intent result profile).activeGuests = s.activeGuests ↔
      s.activeGuests.get? (s.tenantId ++ ":" ++ packageUrl) =
        some ⟨packageUrl, intent, result, profile⟩ := by
  refine ⟨fun h => ?_, Dict.set_of_get?⟩
  rw [← h]
  exact Dict.get?_set_self ..

/-- An admission raises before the registration or after it. -/
theorem admitGuest_raises {exc : Raised} {s' : GuestSandbox} :
    (admitGuest packageUrl intent resourceProfile).run (handle out) s = (.error exc, s') ↔
      (out.passed s.tenantId packageUrl intent = .error exc ∧ s = s') ∨
      ∃ result, out.passed s.tenantId packageUrl intent = .ok result ∧
        out.reply s.tenantId s.nodeId (s.tenantId ++ ":" ++ packageUrl) result
          (profileOf resourceProfile) = .error exc ∧
        s.register packageUrl intent result (profileOf resourceProfile) = s' := by
  rw [admitGuest_run]
  cases out.passed s.tenantId packageUrl intent with
  | error raised => simp
  | ok result => simp

theorem atomic_admission (ho : out.Ordinary) (s : GuestSandbox) (packageUrl intent : String)
    (resourceProfile : Option Profile) :
    Atomic out s (.admitGuest packageUrl intent resourceProfile) ↔
      Settles out s (.admitGuest packageUrl intent resourceProfile) := by
  constructor
  · intro h result hp
    rcases reply_cases out s packageUrl result resourceProfile with
      ⟨hans, -⟩ | ⟨-, exc, hreply⟩
    · exact .inl hans
    · obtain ⟨hguests, hkind⟩ :=
        h exc _ (admitGuest_raises.mpr (.inr ⟨result, hp, hreply, rfl⟩))
      exact .inr ⟨register_eq_iff.mp hguests, exc, reply_error_iff.mp hreply, hkind⟩
  · intro h exc s' hrun
    rcases admitGuest_raises.mp hrun with ⟨hp, rfl⟩ | ⟨result, hp, hreply, rfl⟩
    · exact ⟨rfl, passed_admission ho hp⟩
    · rcases reply_cases out s packageUrl result resourceProfile with
        ⟨-, reply, hok, -⟩ | ⟨hans, -⟩
      · rw [hok] at hreply
        cases hreply
      · obtain ⟨hrecord, raised, hraised, hkind⟩ := (h result hp).resolve_left hans
        obtain rfl := Except.error.inj ((reply_error_iff.mp hreply).symm.trans hraised)
        exact ⟨register_eq_iff.mpr hrecord, hkind⟩

/-! ## Termination -/

theorem erase_ne {guests : Dict String Guest} {guestId : String} (h : guests.contains guestId) :
    guests.erase guestId ≠ guests := by
  intro he
  have hget : (guests.erase guestId).get? guestId = none := by rw [Dict.get?_erase, if_pos rfl]
  rw [he] at hget
  simp [Dict.contains, hget] at h

theorem atomic_termination (out : Outside) (s : GuestSandbox) (guestId : String) :
    Atomic out s (.terminateGuest guestId) ↔ Settles out s (.terminateGuest guestId) := by
  obtain ⟨codex, hrun⟩ := terminateGuest_run out s guestId
  unfold Atomic Settles
  dsimp only
  rw [hrun]
  by_cases hc : s.activeGuests.contains guestId
  · rw [if_pos hc]
    cases out.finalSeal s.codex with
    | error raised =>
      -- Raised after the deletion.
      refine iff_of_false (fun h => ?_) fun h => ?_
      · exact erase_ne hc (h raised _ rfl)
      · cases h hc
    | ok _ =>
      refine iff_of_true (fun exc s' h => ?_) fun _ => rfl
      cases h
  · rw [if_neg hc]
    refine iff_of_true (fun exc s' h => ?_) fun h => absurd h hc
    cases h

/-- A call keeps the guests when it raises exactly if what follows its change of them
raises nothing. -/
theorem atomic_iff (out : Outside) (ho : out.Ordinary) (s : GuestSandbox) (op : Operation) :
    Atomic out s op ↔ Settles out s op := by
  cases op with
  | admitGuest packageUrl intent resourceProfile =>
    exact atomic_admission ho s packageUrl intent resourceProfile
  | terminateGuest guestId => exact atomic_termination out s guestId

theorem ordinary_ok {α : Type} (a : α) : Ordinary (.ok a) := fun _ h => by cases h

theorem hypervisor_ordinary {gate : Except Raised Unit} (hg : Ordinary gate) :
    (hypervisor gate).Ordinary where
  importCodex := ordinary_ok ()
  newCodex := ordinary_ok ()
  invokeStage _ := ordinary_ok ()
  importGate := ordinary_ok ()
  enforceCodexOnInstall _ _ := hg
  importUniverse := ordinary_ok ()
  newUniverse := ordinary_ok ()
  launchApp _ _ := ordinary_ok _
  importMonitor := ordinary_ok ()
  report _ _ _ _ := ordinary_ok ()

/-- An admission that the gate rejects. -/
theorem rejection_atomic : Atomic (hypervisor (.error ⟨.exception, "misaligned"⟩))
    { tenantId := "acme" } (.admitGuest "gaia://app" "to serve" none) := by
  have ho : (hypervisor (.error ⟨.exception, "misaligned"⟩)).Ordinary :=
    hypervisor_ordinary fun exc h => by cases h; rfl
  refine (atomic_iff _ ho _ _).mpr fun result h => ?_
  cases h

/-- A monitor that fails on a report. -/
def brokenMonitor : Outside :=
  { hypervisor (.ok ()) with report := fun _ _ _ _ => .error ⟨.exception, "disk full"⟩ }

/-- The report of the energy draw fails, and the guest stays. -/
theorem report_keeps_guest : brokenMonitor.Ordinary ∧
    ¬ Atomic brokenMonitor { tenantId := "acme" } (.admitGuest "gaia://app" "to serve" none) := by
  refine ⟨{ hypervisor_ordinary (ordinary_ok ()) with
    report := fun _ _ _ _ exc h => by cases h; rfl }, fun h => ?_⟩
  have hguests := (h _ _ (admitGuest_run ..)).1
  cases register_eq_iff.mp hguests

end Gaia.Sandbox
