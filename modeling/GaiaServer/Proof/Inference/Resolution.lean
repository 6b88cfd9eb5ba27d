import GaiaServer.Proof.Inference.Responses

/-!
# Which backend answers

The router documents an order: the backend that the request names, then the configured
default, then mock. `infer` answers with the backend that `resolve` finds, and with no
other (`dispatchesTo_iff`). But it looks up one name, the request's or the default, and
then mock: the default is not tried for a request whose backend is not registered. So
the order is kept exactly if no such request meets a default of its own
(`follows_priority_iff`).
-/

namespace Gaia.Inference

namespace InferenceRouter

variable {β : Type}

/-- The names to try, in the documented order. -/
def priority (r : InferenceRouter β) (request : InferRequest) : List String :=
  (request.requested.map RuntimeBackend.value).toList ++ [r.default, RuntimeBackend.mock.value]

/-- The first backend of this order that is registered. -/
def preferred (r : InferenceRouter β) (request : InferRequest) : Option β :=
  (r.priority request).findSome? r.backends.get?

/-- The request goes to `b`: whatever the backends do, the response is that of a router
that has `b` alone. -/
def DispatchesTo (r : InferenceRouter β) (request : InferRequest) (b : β) : Prop :=
  ∀ (_ : InferenceBackend β) (τ : Type) (R : Runtime τ) (T : Timing τ),
    r.infer R T request = (new b r.default r.timeoutMs).infer R T request

/-- The request goes to the first backend that is registered. -/
def FollowsPriority (r : InferenceRouter β) (request : InferRequest) : Prop :=
  ∃ b, r.preferred request = some b ∧ r.DispatchesTo request b

variable {r : InferenceRouter β} {request : InferRequest}

/-- A router that has one backend finds it under every name. -/
theorem resolve_new (b : β) (default : String) (timeoutMs : Int) :
    (new b default timeoutMs).resolve request = some b := by
  rw [resolve, new, Dict.get?_single, Dict.get?_single, if_pos rfl]
  split
  · rfl
  · rfl

/-- Backends that accept a request exactly if `p` holds of them. -/
@[reducible] def telling (p : β → Bool) : InferenceBackend β where
  backendId _ := .mock
  generate b _ _ request := .ok { errorResponse request "" "" with accepted := p b }
  embed b _ _ request := .ok { errorResponse request "" "" with accepted := p b }
  health _ := .ok ⟨none, []⟩

theorem infer_telling {p : β → Bool} {b : β} (h : r.resolve request = some b) {τ : Type}
    (R : Runtime τ) {T : Timing τ} (hT : T.timedOut = false) :
    (@infer β r (telling p) τ R T request).accepted = p b := by
  rw [infer, h]
  dsimp only
  rw [hT]
  unfold dispatch
  by_cases he : request.taskType = .embed
  · rw [if_pos he]
    rfl
  · rw [if_neg he]
    rfl

/-- A request goes to the backend that is found for it, and to no other. -/
theorem dispatchesTo_iff {b : β} : r.DispatchesTo request b ↔ r.resolve request = some b := by
  constructor
  · intro h
    obtain ⟨x, hx⟩ := Option.isSome_iff_exists.mp (r.resolve_isSome request)
    classical
    let R : Runtime Unit := ⟨fun _ => .ok "", fun _ _ => 0, fun _ => ""⟩
    let T : Timing Unit := ⟨(), (), (), (), false⟩
    have hx' := infer_telling (p := fun y => y = x) hx R (T := T) rfl
    rw [h, infer_telling (resolve_new b r.default r.timeoutMs) R rfl, decide_eq_decide] at hx'
    rw [hx, hx'.mpr rfl]
  · intro h inst τ R T
    rw [infer, infer, h, resolve_new]
    rfl

theorem preferred_eq : r.preferred request =
    ((request.requested.bind fun b => r.backends.get? b.value).or
      ((r.backends.get? r.default).or (r.backends.get? RuntimeBackend.mock.value))) := by
  have htail : [r.default, RuntimeBackend.mock.value].findSome? r.backends.get? =
      (r.backends.get? r.default).or (r.backends.get? RuntimeBackend.mock.value) := by
    rw [List.findSome?_cons, List.findSome?_cons, List.findSome?_nil]
    cases r.backends.get? r.default <;> cases r.backends.get? RuntimeBackend.mock.value <;> rfl
  rw [preferred, priority, List.findSome?_append, htail]
  cases request.requested with
  | none => rfl
  | some b => simp

theorem followsPriority_iff_resolve :
    r.FollowsPriority request ↔ r.preferred request = r.resolve request := by
  simp only [FollowsPriority, dispatchesTo_iff]
  constructor
  · intro ⟨b, hp, hr⟩
    rw [hp, hr]
  · intro h
    obtain ⟨b, hb⟩ := Option.isSome_iff_exists.mp (r.resolve_isSome request)
    exact ⟨b, h.trans hb, hb⟩

/-- The order is kept exactly if, for a request whose own backend is not registered, the
configured default is not registered either, or is the backend that mock is. -/
theorem follows_priority_iff (r : InferenceRouter β) (request : InferRequest) :
    r.FollowsPriority request ↔
      ∀ b, request.requested = some b → r.backends.get? b.value = none →
        r.backends.get? r.default = none ∨
          r.backends.get? r.default = r.backends.get? RuntimeBackend.mock.value := by
  obtain ⟨m, hm⟩ := Option.isSome_iff_exists.mp r.mock_registered
  rw [followsPriority_iff_resolve, preferred_eq, resolve, backendKey, hm]
  cases request.requested with
  | none => exact iff_of_true rfl fun b hb => by cases hb
  | some b =>
    simp only [Option.bind_some, Option.some.injEq, forall_eq']
    cases r.backends.get? b.value with
    | some x => exact iff_of_true rfl fun h => by cases h
    | none =>
      -- the default comes next in the order, mock in the code
      cases r.backends.get? r.default with
      | none => exact iff_of_true rfl fun _ => .inl rfl
      | some d => simp

end InferenceRouter

/-! ## An unregistered backend -/

/-- Settings with a model, and llama.cpp as the default. -/
def llamaSettings : InferenceSettings where
  llamaModelPath := some "/models/gaia.gguf"
  llamaNCtx := 4096
  llamaNGpuLayers := 0
  llamaNThreads := 4
  llamaVerbose := false
  inferenceTimeoutMs := 30000
  inferenceDefaultBackend := "llama.cpp"

/-- A model that completes every prompt with the same text. -/
def llama : LlamaCppBackend where
  model := {
    call := fun _ _ _ _ =>
      .ok ⟨some [⟨some (.str "Hello."), some (.str "stop")⟩], some (.int 2), some (.int 2)⟩
    embed := fun _ => .ok [.float "0.5"]
    modelPath := .ok "/models/gaia.gguf" }

/-- The router that these settings give. -/
def llamaRouter : InferenceRouter Backend := createRouter llamaSettings fun _ => .ok llama

/-- A request for a backend that is not registered. -/
def vllmRequest : InferRequest where
  requestId := "req-003"
  coreId := "core-nexus"
  taskType := .generate
  backend := some (.other "vllm")
  modelId := none
  payload := .single "prompt" (.str "test")
  maxTokens := none
  temperature := none

/-- The default is registered, and mock answers. -/
theorem default_passed_over :
    llamaRouter.preferred vllmRequest = some (.llamaCpp llama) ∧
    llamaRouter.DispatchesTo vllmRequest (.mock ⟨⟩) ∧
    (llamaRouter.infer milliseconds ⟨0, 0, 0, 0, false⟩ vllmRequest).backend = .mock ∧
    ¬ llamaRouter.FollowsPriority vllmRequest := by
  have hp : llamaRouter.preferred vllmRequest = some (.llamaCpp llama) := rfl
  have hr : llamaRouter.resolve vllmRequest = some (.mock ⟨⟩) := rfl
  refine ⟨hp, InferenceRouter.dispatchesTo_iff.mpr hr, rfl, fun h => ?_⟩
  have he := InferenceRouter.followsPriority_iff_resolve.mp h
  rw [hp, hr] at he
  cases he

end Gaia.Inference
