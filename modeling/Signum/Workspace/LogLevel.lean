import Signum.Text.Quoted
/- Levels of logging. -/
namespace Signum

/-- How much is logged: everything from a level on. -/
inductive LogLevel where
  | debug
  | info
  | warn
  | error
  | dpanic
  | panic
  | fatal
  deriving DecidableEq, Repr

namespace LogLevel

def all : List LogLevel := [.debug, .info, .warn, .error, .dpanic, .panic, .fatal]

/-- The name of a level. -/
def name : LogLevel → Bytes
  | .debug => "debug"
  | .info => "info"
  | .warn => "warn"
  | .error => "error"
  | .dpanic => "dpanic"
  | .panic => "panic"
  | .fatal => "fatal"

/-- The level of that name in any case of letters; warnings when no name is given. -/
def ofName (text : Bytes) : Except Bytes LogLevel :=
  if text.isEmpty then .ok .warn
  else match all.find? (·.name == text.map Bytes.toLower) with
    | some level => .ok level
    | none => .error ("failed to construct logger: unrecognized level: " ++ text.quoted)

end LogLevel
end Signum
