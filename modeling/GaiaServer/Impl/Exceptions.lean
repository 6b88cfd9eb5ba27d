import GaiaServer.Framework.Json

/-!
# Exceptions

An exception is its class and its text. The classes are those of
`gaia_server/restore/errors.py`, of the standard library and of the storage
clients, as far as the code raises, catches or lets them pass.
-/

namespace Gaia

/-- The classes of the exceptions that the code raises, catches or lets pass. -/
inductive ExcClass
  | manifestError
  | causalReplayError
  | attestationError
  | trustPromotionError
  | valueError
  | typeError
  | notImplementedError
  | s3Error
  | natsTimeoutError
  | natsNotFoundError
  | natsBadRequestError
  | natsNoStreamResponseError
  | other (name : String)
  deriving DecidableEq

/-- `issubclass(cls, RestoreError)`. -/
def ExcClass.isRestoreError : ExcClass → Bool
  | .manifestError | .causalReplayError | .attestationError | .trustPromotionError => true
  | _ => false

/-- An exception, with its `str(exc)`. -/
structure Exc where
  cls : ExcClass
  msg : String
  deriving DecidableEq

/-- The classes of `BaseException` that are no `Exception`, so that `except Exception`
lets them pass. -/
inductive ExitClass
  | systemExit
  | keyboardInterrupt
  | cancelledError
  | other (name : String)
  deriving DecidableEq

/-- A `BaseException` that is no `Exception`, with its text. -/
structure ExitExc where
  cls : ExitClass
  msg : String
  deriving DecidableEq

/-- The exception of a failed `json.dumps`. -/
def Exc.ofEncode : EncodeError → Exc
  | .typeError => ⟨.typeError, "Object is not JSON serializable"⟩
  | .valueError => ⟨.valueError, "Exceeds the limit for integer string conversion"⟩

/-- `json.dumps(v, …)` in code that lets its exceptions pass. -/
def jsonDumps (args : DumpsArgs) (v : PyVal) : Except Exc String :=
  (Json.dumps args v).mapError Exc.ofEncode

end Gaia
