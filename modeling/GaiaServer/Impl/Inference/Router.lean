import GaiaServer.Framework.Text
import GaiaServer.Impl.Health

/-!
# The inference router

`gaia_server/inference/router.py`, the backends of
`gaia_server/inference/backends`, and `gaia_server/inference/factory.py`, which
builds a router from its settings. The contracts of gaia_core are outside the
repository: a backend's name is a string (`RuntimeBackend.value`), and a request's
payload is a mapping.

What a call reads off the clock, and whether it is timed out, are arguments
of it (`Timing`); the time between two readings, `str` and the text of the timeout
are parameters (`Runtime`). Log lines are left out.
-/

namespace Gaia.Inference

/-! ## Contracts -/

inductive RuntimeBackend
  | mock
  | llamaCpp
  | other (value : String)
  deriving DecidableEq

/-- `str(backend)`. -/
def RuntimeBackend.value : RuntimeBackend → String
  | .mock => "mock"
  | .llamaCpp => "llama.cpp"
  | .other value => value

inductive TaskType
  | generate
  | embed
  | summarize
  | classify
  | route
  | policyEval
  | other (value : String)
  deriving DecidableEq

structure InferRequest where
  requestId : String
  coreId : String
  taskType : TaskType
  backend : Option RuntimeBackend
  modelId : Option String
  payload : Dict String PyVal
  maxTokens : Option Int
  temperature : Option PyVal

/-- `request.backend`, if it is neither `None` nor empty. -/
def InferRequest.requested (request : InferRequest) : Option RuntimeBackend :=
  request.backend.filter fun b => b.value ≠ ""

structure InferResponse where
  requestId : String
  accepted : Bool
  coreId : String
  taskType : TaskType
  backend : RuntimeBackend
  modelId : Option String
  result : List (PyKey × PyVal)
  usage : List (PyKey × PyVal)
  latencyMs : Int
  errorCode : Option String := none
  errorMessage : Option String := none

/-! ## The runtime -/

/-- What the code takes from the runtime, over the readings `τ` of the clock. -/
structure Runtime (τ : Type) where
  /-- `str(v)`, which raises for an `int` of too many digits. -/
  str : PyVal → Except Exc String
  /-- `int((b - a) * 1000)`. -/
  ms : (a b : τ) → Int
  /-- The text of a number of milliseconds in seconds. -/
  seconds : Int → String

/-- The clock in a call of the router: as it starts, before and after the model
runs, and as it ends; and whether the call is timed out. -/
structure Timing (τ : Type) where
  start : τ
  modelStart : τ
  modelEnd : τ
  stop : τ
  timedOut : Bool

/-- What `split` splits at: the blanks of `int`, and the four separators of ASCII. -/
def isSpace (c : Char) : Bool := isBlank c || (0x1c ≤ c.toNat && c.toNat ≤ 0x1f)

/-- `s.split()`. -/
def split (s : String) : List (List Char) := (s.toList.splitOnP isSpace).filter (· ≠ [])

example : split "a\x1cb  c" = [['a'], ['b'], ['c']] := by decide

/-- `s or default`. -/
def orDefault (s : Option String) (default : String) : String := (given s).getD default

/-- `n or default`. -/
def intOrDefault (n : Option Int) (default : Int) : Int := (n.filter (· ≠ 0)).getD default

/-- The methods of a backend. -/
class InferenceBackend (β : Type) where
  backendId : β → RuntimeBackend
  generate {τ : Type} : β → Runtime τ → Timing τ → InferRequest → Except Exc InferResponse
  embed {τ : Type} : β → Runtime τ → Timing τ → InferRequest → Except Exc InferResponse
  health : β → Except Exc Health

/-! ## The backends of the repository -/

/-- `MockBackend`. -/
structure MockBackend where

namespace MockBackend

variable {τ : Type} (R : Runtime τ)

def generate (request : InferRequest) : Except Exc InferResponse := do
  let prompt ← R.str (request.payload.get "prompt" (.str ""))
  return {
    requestId := request.requestId
    accepted := true
    coreId := request.coreId
    taskType := .generate
    backend := .mock
    modelId := some (orDefault request.modelId "mock")
    result := [(.str "text", .str ("[mock] echo: " ++ String.ofList (prompt.toList.take 120)))]
    usage :=
      [(.str "prompt_tokens", .int (split prompt).length), (.str "completion_tokens", .int 8)]
    latencyMs := 1 }

def embed (request : InferRequest) : Except Exc InferResponse := do
  let text ← R.str (request.payload.get "text" (.str ""))
  return {
    requestId := request.requestId
    accepted := true
    coreId := request.coreId
    taskType := .embed
    backend := .mock
    modelId := some (orDefault request.modelId "mock")
    result := [(.str "embedding",
      .list [.float "0.25", .float "0.25", .float "0.25", .float "0.25"]), (.str "dims", .int 4)]
    usage := [(.str "tokens", .int (split text).length)]
    latencyMs := 1 }

def health : Health := ⟨some "ok", [(.str "backend", .str "mock"), (.str "model", .str "mock")]⟩

end MockBackend

/-- A choice of a completion, each field if it is there. -/
structure Choice where
  text : Option PyVal
  finishReason : Option PyVal

/-- What a llama.cpp model returns for a prompt, each field if it is there. -/
structure Completion where
  choices : Option (List Choice)
  promptTokens : Option PyVal
  completionTokens : Option PyVal

/-- A llama.cpp model. -/
structure LlamaModel where
  call : (prompt : String) → (maxTokens : Int) → (temperature stop : PyVal) →
    Except Exc Completion
  embed : (text : String) → Except Exc (List PyVal)
  /-- `str(getattr(model, "model_path", "unknown"))`. -/
  modelPath : Except Exc String

/-- `LlamaCppBackend`. -/
structure LlamaCppBackend where
  model : LlamaModel

namespace LlamaCppBackend

variable {τ : Type} (b : LlamaCppBackend) (R : Runtime τ) (T : Timing τ)

def generate (request : InferRequest) : Except Exc InferResponse := do
  let prompt ← R.str (request.payload.get "prompt" (.str ""))
  let maxTokens := intOrDefault request.maxTokens 512
  let temperature := request.temperature.getD (.float "0.7")
  let output ← b.model.call prompt maxTokens temperature (request.payload.get "stop" (.list []))
  let latencyMs := R.ms T.modelStart T.modelEnd
  let choice := ((output.choices.getD []).head?).getD ⟨none, none⟩
  return {
    requestId := request.requestId
    accepted := true
    coreId := request.coreId
    taskType := .generate
    backend := .llamaCpp
    modelId := some (orDefault request.modelId "llama.cpp")
    result := [(.str "text", choice.text.getD (.str "")),
      (.str "finish_reason", choice.finishReason.getD .none)]
    usage := [(.str "prompt_tokens", output.promptTokens.getD (.int 0)),
      (.str "completion_tokens", output.completionTokens.getD (.int 0))]
    latencyMs := latencyMs }

def embed (request : InferRequest) : Except Exc InferResponse := do
  let text ← R.str (request.payload.get "text" (.str ""))
  let embedding ← b.model.embed text
  let latencyMs := R.ms T.modelStart T.modelEnd
  return {
    requestId := request.requestId
    accepted := true
    coreId := request.coreId
    taskType := .embed
    backend := .llamaCpp
    modelId := some (orDefault request.modelId "llama.cpp")
    result := [(.str "embedding", .list embedding), (.str "dims", .int embedding.length)]
    usage := [(.str "tokens", .int (split text).length)]
    latencyMs := latencyMs }

def health : Health :=
  match b.model.modelPath with
  | .ok path => ⟨some "ok", [(.str "backend", .str "llama.cpp"), (.str "model", .str path)]⟩
  | .error exc =>
    ⟨some "error", [(.str "backend", .str "llama.cpp"), (.str "detail", .str exc.msg)]⟩

end LlamaCppBackend

/-- A backend of the repository. -/
inductive Backend
  | mock (b : MockBackend)
  | llamaCpp (b : LlamaCppBackend)

instance : InferenceBackend Backend where
  backendId
    | .mock _ => .mock
    | .llamaCpp _ => .llamaCpp
  generate
    | .mock _, R, _, request => MockBackend.generate R request
    | .llamaCpp b, R, T, request => b.generate R T request
  embed
    | .mock _, R, _, request => MockBackend.embed R request
    | .llamaCpp b, R, T, request => b.embed R T request
  health
    | .mock _ => .ok MockBackend.health
    | .llamaCpp b => .ok b.health

/-! ## The router -/

/-- A router. A backend is registered as `mock` from the start. -/
structure InferenceRouter (β : Type) where
  backends : Dict String β
  default : String
  timeoutMs : Int
  mock_registered : (backends.get? RuntimeBackend.mock.value).isSome

namespace InferenceRouter

variable {β : Type}

def new (mock : β) (defaultBackendName : String := "mock") (timeoutMs : Int := 30000) :
    InferenceRouter β where
  backends := .single RuntimeBackend.mock.value mock
  default := defaultBackendName
  timeoutMs := timeoutMs
  mock_registered := by simp [Dict.get?_single]

/-- Registering under a name. -/
def register (r : InferenceRouter β) (backendId : String) (backend : β) : InferenceRouter β where
  backends := r.backends.set backendId backend
  default := r.default
  timeoutMs := r.timeoutMs
  mock_registered := by
    rw [Dict.get?_set]
    split
    · rfl
    · exact r.mock_registered

/-- `_error_response`. -/
def errorResponse (request : InferRequest) (code message : String) : InferResponse where
  requestId := request.requestId
  accepted := false
  coreId := request.coreId
  taskType := request.taskType
  backend := request.requested.getD .mock
  modelId := request.modelId
  result := []
  usage := []
  latencyMs := 0
  errorCode := some code
  errorMessage := some message

variable (r : InferenceRouter β)

/-- The name that a request is dispatched under. -/
def backendKey (request : InferRequest) : String :=
  match request.requested with
  | some b => b.value
  | none => r.default

/-- The backend that a request is dispatched to. -/
def resolve (request : InferRequest) : Option β :=
  (r.backends.get? (r.backendKey request)).or (r.backends.get? RuntimeBackend.mock.value)

variable [InferenceBackend β] {τ : Type} (R : Runtime τ) (T : Timing τ)

/-- `_dispatch`. -/
def dispatch (backend : β) (request : InferRequest) : Except Exc InferResponse :=
  if request.taskType = .embed then InferenceBackend.embed backend R T request
  else InferenceBackend.generate backend R T request

def infer (request : InferRequest) : InferResponse :=
  match r.resolve request with
  | none => errorResponse request "NO_BACKEND"
      ("No backend registered for '" ++ r.backendKey request ++ "'")
  | some backend =>
    let timeout := errorResponse request "TIMEOUT"
      ("Inference timed out after " ++ R.seconds r.timeoutMs ++ "s")
    if T.timedOut then timeout
    else match dispatch R T backend request with
      | .ok response => response
      | .error exc =>
        if exc.cls = .other "TimeoutError" then timeout
        else errorResponse request "BACKEND_ERROR" exc.msg

/-- The health of a backend; its exception is an error. -/
def backendHealth (backend : β) : Health :=
  match InferenceBackend.health backend with
  | .ok result => result
  | .error exc => ⟨some "error", [(.str "detail", .str exc.msg)]⟩

def health : Health :=
  let results := r.backends.items.map fun (key, backend) => (key, backendHealth backend)
  let status := if results.all fun v => v.2.status = some "ok" then "ok" else "degraded"
  ⟨some status, [(.str "backends", .dict (results.map fun v => (.str v.1, v.2.wire)))]⟩

end InferenceRouter

/-! ## The factory -/

/-- The settings that the factory reads. -/
structure InferenceSettings where
  llamaModelPath : Option String
  llamaNCtx : Int
  llamaNGpuLayers : Int
  llamaNThreads : Int
  llamaVerbose : Bool
  inferenceTimeoutMs : Int
  inferenceDefaultBackend : String

/-- `create_router`, where `load` is `LlamaCppBackend.load`. A model that cannot be
loaded leaves mock alone. -/
def createRouter (cfg : InferenceSettings)
    (load : InferenceSettings → Except Exc LlamaCppBackend) : InferenceRouter Backend :=
  let router := .new (.mock ⟨⟩) cfg.inferenceDefaultBackend cfg.inferenceTimeoutMs
  match given cfg.llamaModelPath with
  | none => router
  | some _ =>
    match load cfg with
    | .ok llama => router.register RuntimeBackend.llamaCpp.value (.llamaCpp llama)
    | .error _ => router

end Gaia.Inference
