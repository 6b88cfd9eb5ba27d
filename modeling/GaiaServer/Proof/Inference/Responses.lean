import GaiaServer.Impl.Inference.Router

/-!
# What a response says

A router finds a backend for every request (`resolve_isSome`). Whichever way the
call ends, the response carries the request's id and core (`infer_success`,
`infer_failure`). But a backend's response names the method that ran, not the task,
and the backend's own time; and the router's response to a failure names the
backend asked for, not the one found, and no time at all. When each of them is
right is `infer_describes_iff`.
-/

namespace Gaia.Inference

open InferenceRouter

variable {β τ : Type} {R : Runtime τ} {T : Timing τ} {request : InferRequest}

theorem InferenceRouter.resolve_isSome (r : InferenceRouter β) (request : InferRequest) :
    (r.resolve request).isSome := by
  unfold resolve
  rw [Option.isSome_or, r.mock_registered, Bool.or_true]

/-- The backend that a request is dispatched to. -/
def InferenceRouter.invoked (r : InferenceRouter β) (request : InferRequest) : β :=
  (r.resolve request).get (r.resolve_isSome request)

/-- The response describes the call: whose it is, what was asked, which backend it
went to and how long the router took. -/
structure Describes (R : Runtime τ) (T : Timing τ) (request : InferRequest) (b : Backend)
    (response : InferResponse) : Prop where
  requestId : response.requestId = request.requestId
  coreId : response.coreId = request.coreId
  taskType : response.taskType = request.taskType
  backend : response.backend.value = (InferenceBackend.backendId b).value
  latencyMs : response.latencyMs = R.ms T.start T.stop

/-- The text that the request is about. -/
def textOf (R : Runtime τ) (request : InferRequest) : Except Exc String :=
  if request.taskType = .embed then R.str (request.payload.get "text" (.str ""))
  else R.str (request.payload.get "prompt" (.str ""))

/-- The model, if there is one, returns for a text. -/
def ModelReturns (request : InferRequest) (text : String) : Backend → Prop
  | .mock _ => True
  | .llamaCpp b =>
    if request.taskType = .embed then ∃ e, b.model.embed text = .ok e
    else ∃ c, b.model.call text (intOrDefault request.maxTokens 512)
      (request.temperature.getD (.float "0.7")) (request.payload.get "stop" (.list [])) = .ok c

/-- The call is not timed out, the request has a text, and the model, if there is one, returns. -/
structure Succeeds (R : Runtime τ) (T : Timing τ) (request : InferRequest) (b : Backend) :
    Prop where
  inTime : T.timedOut = false
  returns : ∃ text, textOf R request = .ok text ∧ ModelReturns request text b

/-- The time that a backend reports. -/
def reportedMs (R : Runtime τ) (T : Timing τ) : Backend → Int
  | .mock _ => 1
  | .llamaCpp _ => R.ms T.modelStart T.modelEnd

/-- The task that a method reports. -/
def reportedTask (request : InferRequest) : TaskType :=
  if request.taskType = .embed then .embed else .generate

/-- The fields of a backend's response. -/
structure Reports (R : Runtime τ) (T : Timing τ) (request : InferRequest) (b : Backend)
    (response : InferResponse) : Prop where
  requestId : response.requestId = request.requestId
  coreId : response.coreId = request.coreId
  taskType : response.taskType = reportedTask request
  backend : response.backend = InferenceBackend.backendId b
  latencyMs : response.latencyMs = reportedMs R T b

theorem dispatch_ok {b : Backend} (h : Succeeds R T request b) :
    ∃ response, dispatch R T b request = .ok response ∧ Reports R T request b response := by
  obtain ⟨-, text, htext, hmodel⟩ := h
  rw [textOf] at htext
  unfold dispatch
  by_cases ht : request.taskType = .embed
  · have htask : reportedTask request = .embed := if_pos ht
    rw [if_pos ht] at htext ⊢
    cases b with
    | mock b =>
      simp only [InferenceBackend.embed, MockBackend.embed, htext, bind, Except.bind, pure,
        Except.pure]
      exact ⟨_, rfl, rfl, rfl, htask.symm, rfl, rfl⟩
    | llamaCpp b =>
      rw [ModelReturns, if_pos ht] at hmodel
      obtain ⟨e, he⟩ := hmodel
      simp only [InferenceBackend.embed, LlamaCppBackend.embed, htext, he, bind, Except.bind, pure,
        Except.pure]
      exact ⟨_, rfl, rfl, rfl, htask.symm, rfl, rfl⟩
  · have htask : reportedTask request = .generate := if_neg ht
    rw [if_neg ht] at htext ⊢
    cases b with
    | mock b =>
      simp only [InferenceBackend.generate, MockBackend.generate, htext, bind, Except.bind, pure,
        Except.pure]
      exact ⟨_, rfl, rfl, rfl, htask.symm, rfl, rfl⟩
    | llamaCpp b =>
      rw [ModelReturns, if_neg ht] at hmodel
      obtain ⟨c, hc⟩ := hmodel
      simp only [InferenceBackend.generate, LlamaCppBackend.generate, htext, hc, bind, Except.bind,
        pure, Except.pure]
      exact ⟨_, rfl, rfl, rfl, htask.symm, rfl, rfl⟩

theorem dispatch_error {b : Backend} (h : ¬ Succeeds R T request b) (ht : T.timedOut = false) :
    ∃ exc, dispatch R T b request = .error exc := by
  have hno : ∀ text, textOf R request = .ok text → ¬ ModelReturns request text b :=
    fun text htext hmodel => h ⟨ht, text, htext, hmodel⟩
  rw [textOf] at hno
  unfold dispatch
  by_cases he : request.taskType = .embed
  · rw [if_pos he] at hno ⊢
    cases htext : R.str (request.payload.get "text" (.str "")) with
    | error exc =>
      -- the text raises before the backend looks at anything else
      cases b <;> exact ⟨exc, by simp only [InferenceBackend.embed, MockBackend.embed,
        LlamaCppBackend.embed, htext, bind, Except.bind]⟩
    | ok text =>
      cases b with
      | mock b => exact absurd trivial (hno text htext)
      | llamaCpp b =>
        have hmodel := hno text htext
        rw [ModelReturns, if_pos he] at hmodel
        simp only [InferenceBackend.embed, LlamaCppBackend.embed, htext, bind, Except.bind]
        cases hm : b.model.embed text with
        | error exc => exact ⟨exc, rfl⟩
        | ok e => exact absurd ⟨e, hm⟩ hmodel
  · rw [if_neg he] at hno ⊢
    cases htext : R.str (request.payload.get "prompt" (.str "")) with
    | error exc =>
      cases b <;> exact ⟨exc, by simp only [InferenceBackend.generate, MockBackend.generate,
        LlamaCppBackend.generate, htext, bind, Except.bind]⟩
    | ok text =>
      cases b with
      | mock b => exact absurd trivial (hno text htext)
      | llamaCpp b =>
        have hmodel := hno text htext
        rw [ModelReturns, if_neg he] at hmodel
        simp only [InferenceBackend.generate, LlamaCppBackend.generate, htext, bind, Except.bind]
        split
        · exact ⟨_, rfl⟩
        · rename_i c hm
          exact absurd ⟨c, hm⟩ hmodel

/-! ## The router's response -/

section

variable (r : InferenceRouter Backend)

theorem infer_eq : r.infer R T request =
    if T.timedOut then errorResponse request "TIMEOUT"
      ("Inference timed out after " ++ R.seconds r.timeoutMs ++ "s")
    else match dispatch R T (r.invoked request) request with
      | .ok response => response
      | .error exc =>
        if exc.cls = .other "TimeoutError" then errorResponse request "TIMEOUT"
          ("Inference timed out after " ++ R.seconds r.timeoutMs ++ "s")
        else errorResponse request "BACKEND_ERROR" exc.msg := by
  have hr : r.resolve request = some (r.invoked request) := (Option.some_get _).symm
  unfold infer
  generalize r.resolve request = found at hr
  subst hr
  rfl

theorem infer_success (h : Succeeds R T request (r.invoked request)) :
    Reports R T request (r.invoked request) (r.infer R T request) := by
  obtain ⟨response, hd, hr⟩ := dispatch_ok h
  rw [infer_eq, h.inTime, hd]
  exact hr

theorem infer_failure (h : ¬ Succeeds R T request (r.invoked request)) :
    ∃ code message, r.infer R T request = errorResponse request code message := by
  rw [infer_eq]
  cases ht : T.timedOut with
  | true => exact ⟨_, _, rfl⟩
  | false =>
    obtain ⟨exc, hd⟩ := dispatch_error h ht
    rw [hd]
    by_cases hc : exc.cls = .other "TimeoutError"
    · exact ⟨_, _, if_pos hc⟩
    · exact ⟨_, _, if_neg hc⟩

end

/-- A response describes the call it answers exactly if, where the call succeeds, it
asks for one of the two tasks that the methods report and the backend's own
time is the router's; and where it fails, the backend asked for, or mock, is the
one that it went to, and the router took no time. -/
theorem infer_describes_iff (r : InferenceRouter Backend) (R : Runtime τ) (T : Timing τ)
    (request : InferRequest) :
    Describes R T request (r.invoked request) (r.infer R T request) ↔
      (Succeeds R T request (r.invoked request) →
        (request.taskType = .generate ∨ request.taskType = .embed) ∧
          reportedMs R T (r.invoked request) = R.ms T.start T.stop) ∧
      (¬ Succeeds R T request (r.invoked request) →
        (request.requested.getD .mock).value =
            (InferenceBackend.backendId (r.invoked request)).value ∧
          R.ms T.start T.stop = 0) := by
  by_cases h : Succeeds R T request (r.invoked request)
  · have hr := infer_success r h
    have ht : reportedTask request = request.taskType ↔
        request.taskType = .generate ∨ request.taskType = .embed := by
      unfold reportedTask
      split <;> rename_i he <;> simp [he, eq_comm]
    simp only [h, true_implies, not_true, false_implies, and_true, ← ht]
    constructor
    · intro hd
      exact ⟨hr.taskType.symm.trans hd.taskType, hr.latencyMs.symm.trans hd.latencyMs⟩
    · intro ⟨htask, hms⟩
      exact ⟨hr.requestId, hr.coreId, hr.taskType.trans htask, by rw [hr.backend],
        hr.latencyMs.trans hms⟩
  · obtain ⟨code, message, hr⟩ := infer_failure r h
    simp only [h, false_implies, not_false_eq_true, true_implies, true_and, hr]
    constructor
    · intro hd
      exact ⟨hd.backend, hd.latencyMs.symm⟩
    · intro ⟨hb, hms⟩
      exact ⟨rfl, rfl, rfl, hb, hms.symm⟩

/-! ## A summary -/

/-- A request for a summary, with no backend named. -/
def summaryRequest : InferRequest where
  requestId := "req-001"
  coreId := "core-nexus"
  taskType := .summarize
  backend := none
  modelId := none
  payload := .single "prompt" (.str "Hello GAIA")
  maxTokens := none
  temperature := none

/-- `str` of a text, a number or an object; of the other values nothing is asked here. -/
def plainStr : PyVal → Except Exc String
  | .str s => .ok s
  | .int n => ((Json.intText n).map String.ofList).mapError fun _ =>
    ⟨.valueError, "Exceeds the limit (4300 digits) for integer string conversion"⟩
  | .float repr => .ok repr
  | .obj _ text => .ok text
  | _ => .ok ""

/-- A runtime whose clock counts milliseconds. -/
def milliseconds : Runtime Int := ⟨plainStr, fun a b => b - a, fun _ => "30.0"⟩

/-- A router with mock alone. -/
def mockRouter : InferenceRouter Backend := .new (.mock ⟨⟩)

/-- The mock backend answers a summary as a generation. -/
theorem summary_misdescribed :
    (mockRouter.infer milliseconds ⟨0, 0, 0, 1, false⟩ summaryRequest).taskType = .generate ∧
    summaryRequest.taskType = .summarize ∧
    ¬ Describes milliseconds ⟨0, 0, 0, 1, false⟩ summaryRequest (mockRouter.invoked summaryRequest)
      (mockRouter.infer milliseconds ⟨0, 0, 0, 1, false⟩ summaryRequest) := by
  have htask : (mockRouter.infer milliseconds ⟨0, 0, 0, 1, false⟩ summaryRequest).taskType =
      .generate := rfl
  refine ⟨htask, rfl, fun h => ?_⟩
  cases htask.symm.trans h.taskType

end Gaia.Inference
