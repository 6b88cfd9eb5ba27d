import GaiaServer.Framework.Machine
import GaiaServer.Impl.Exceptions

/-!
# JSON logs

`_JsonFormatter` of `gaia_server/logging_config.py`, and what the `StreamHandler` that
`configure_logging` installs does with it: it writes the text of a record and a newline, and
nothing if there is an exception on the way. What a record's time and its exception are as text
is given, and so is what `getMessage` returns or raises. The levels, the text format and strings
with lone surrogates are left out.
-/

namespace Gaia

structure LogRecord where
  /-- `created`, in UTC and ISO format. -/
  created : String
  levelname : String
  name : String
  /-- `getMessage()`. -/
  message : Except Exc String
  /-- `formatException(exc_info)`, if there is an `exc_info`. -/
  excInfo : Option String := none

namespace JsonFormatter

def payload (record : LogRecord) (msg : String) : List (String × String) :=
  [("ts", record.created), ("level", record.levelname), ("logger", record.name), ("msg", msg)] ++
    (record.excInfo.map fun exc => ("exc", exc)).toList

/-- `format`. -/
def format (record : LogRecord) : Except Exc String := do
  let msg ← record.message
  jsonDumps {} (.dict ((payload record msg).map fun item => (.str item.1, .str item.2)))

end JsonFormatter

/-- `StreamHandler.emit`, on what the stream holds. -/
def emit (stream : String) (record : LogRecord) : String :=
  match JsonFormatter.format record with
  | .ok text => stream ++ text ++ "\n"
  | .error _ => stream

/-- The stream after the records. -/
def logged (records : List LogRecord) : String := Machine.run emit "" records

end Gaia
