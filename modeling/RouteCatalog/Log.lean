import RouteCatalog.Text.CodePoint

/-!
# Log records

What is reported beside the results: a level, the part of the program that speaks, and a message.
Warnings are always shown, debug records only on request.
-/

namespace RouteCatalog.Log

/-- How much a record matters. -/
inductive Level
  /-- For tracing what happened. -/
  | debug
  /-- Something was lost. -/
  | warning
  deriving DecidableEq

/-- A log record. -/
structure Record where
  level : Level
  /-- The part of the program that speaks. -/
  source : Text
  message : Text
  deriving DecidableEq

def Level.name : Level → Text
  | .debug => "DEBUG"
  | .warning => "WARNING"

/-- The line of a record, with the time of day in front. -/
def Record.line (clock : Text) (r : Record) : Text :=
  clock ++ " [" ++ r.level.name ++ "] " ++ r.source ++ ": " ++ r.message ++ "\n"

def shown (verbose : Bool) (records : List Record) : List Record :=
  records.filter fun r ↦ verbose || r.level = .warning

end RouteCatalog.Log
