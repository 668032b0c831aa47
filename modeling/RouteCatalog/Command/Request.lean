import RouteCatalog.Command.Arguments
import RouteCatalog.Command.Help
import RouteCatalog.Console.Escape
import RouteCatalog.Files.Store
import RouteCatalog.Text.Quoted
import RouteCatalog.Text.Numeral
import RouteCatalog.Text.Similar

/-!
# Requests

A command line asks for a task, or for help or the version, or is refused. Switches that answer by
themselves come first; then the other switches are checked in the order in which they are first
used, each with its last value. Words that nothing asks for are noticed last.
-/

namespace RouteCatalog.Command

/-- What a command is to do. -/
inductive Task
  /-- Write the settings of a root. -/
  | init (root : Option Text)
  /-- Scan a root, and say whether to compare with the earlier snapshot and whether to show a table.
  -/
  | generate (root : Option Text) (incremental : Option Bool) (table : Bool)
  | serve (root : Option Text) (port : Option Int)
  deriving DecidableEq

/-- A task, and whether debug records are shown. -/
structure Request where
  verbose : Bool
  task : Task
  deriving DecidableEq

/-- Why a command line is refused. -/
inductive Refusal
  | noCommand
  /-- There is no command of this name. -/
  | unknownCommand (name : Text)
  | arguments (scope : Scope) (fault : Arguments.Fault)
  | noInteger (scope : Scope) (switch : Switch) (operand : Text)
  /-- The operand of a switch leads nowhere. -/
  | noDirectory (scope : Scope) (switch : Switch) (operand : Text)
  /-- The operand of a switch leads to a file. -/
  | isFile (scope : Scope) (switch : Switch) (operand : Text)
  /-- A scope has words that it does not ask for. -/
  | extraWords (scope : Scope) (words : List Text)
  deriving DecidableEq

/-- How a command line ends without a task. -/
inductive Reply
  | help (scope : Scope)
  | version
  | nothing
  | refused (why : Refusal)
  /-- An operand cannot be a path. -/
  | noPath (fault : Files.Fault)
  deriving DecidableEq

namespace Refusal

/-- What is added when there are words similar to an unknown one. -/
def suggestion (t : Text) (words : List Text) : Text :=
  match Text.similarTo t words with
  | [] => []
  | [word] => " Did you mean " ++ word.quoted ++ "?"
  | words => " (Did you mean one of: " ++ Text.join ", " (words.map Text.quoted) ++ "?)"

/-- The forms of a switch in a message. -/
def formsOf (s : Switch) : Text :=
  let forms := s.long :: s.letter?.toList.map Switch.shortForm
  Text.join " / " (forms.map fun form ↦ "'" ++ form ++ "'")

def aboutOperand (s : Switch) (message : Text) : Text :=
  "Invalid value for " ++ formsOf s ++ ": " ++ message

def message : Refusal → Text
  | .noCommand => "Missing command."
  | .unknownCommand name =>
    "No such command " ++ name.quoted ++ "." ++ suggestion name (all.map Command.name)
  | .arguments scope (.unknown form) =>
    "No such option " ++ form.quoted ++ "." ++ suggestion form scope.longForms
  | .arguments _ (.noOperand form) => "Option " ++ form.quoted ++ " requires an argument."
  | .arguments _ (.unwantedOperand form) => "Option " ++ form.quoted ++ " does not take a value."
  | .noInteger _ s operand => aboutOperand s (operand.quoted ++ " is not a valid integer.")
  | .noDirectory _ s operand =>
    aboutOperand s ("Directory " ++ operand.quoted ++ " does not exist.")
  | .isFile _ s operand => aboutOperand s ("Directory " ++ operand.quoted ++ " is a file.")
  | .extraWords _ words =>
    let ending : Text := if words.length = 1 then [] else "s"
    "Got unexpected extra argument" ++ ending ++ " (" ++ Text.join " " words ++ ")"

/-- The scope whose usage is shown with a refusal. -/
def scope? : Refusal → Option Scope
  | .noCommand | .unknownCommand _ => some .program
  | .arguments scope (.unknown _) | .noInteger scope _ _ | .noDirectory scope _ _
  | .isFile scope _ _ | .extraWords scope _ => some scope
  | .arguments _ _ => none

def report (r : Refusal) : Text :=
  let usage : Text :=
    match r.scope? with
    | some s =>
      s.usage ++ "\nTry '" ++ s.words ++ " " ++ Switch.help.long ++ "' for help.\n\n"
    | none => []
  Console.withoutSequences (usage ++ "Error: " ++ r.message ++ "\n")

end Refusal

/-! ## Values of switches -/

/-- The values that switches give. -/
structure Given where
  root : Option Text := none
  port : Option Int := none
  /-- Whether to compare with the earlier snapshot. -/
  incremental : Option Bool := none
  table : Bool := false
  /-- Whether to show debug records. -/
  verbose : Bool := false
  deriving DecidableEq

/-- The text ends in the name of an entry, so it can lead to a file. -/
def endsInName (t : Text) : Bool :=
  match (t.splitOn '/').getLast? with
  | some name => !name.isEmpty && name ≠ "."
  | none => false

/-- The directory that an operand names. -/
def directoryOf (s : Store) (scope : Scope) (w : Switch) (t : Text) : Except Reply Text :=
  match Files.refusal? t with
  | some cause => .error (.noPath ⟨cause, t, none⟩)
  | none =>
    if t.isEmpty then .error (.refused (.noDirectory scope w t))
    else match s.entry (Path.ofText t) with
      | .ok (.dir _) => .ok t
      | .ok (.file _) =>
        .error (.refused (if endsInName t then .isFile scope w t else .noDirectory scope w t))
      | .error _ => .error (.refused (.noDirectory scope w t))

/-- The integer that an operand writes. -/
def integerOf (scope : Scope) (w : Switch) (t : Text) : Except Reply Int :=
  match Numeral.read t with
  | .ok n => .ok n
  | .error _ => .error (.refused (.noInteger scope w t))

/-- Adds the value of a use. -/
def Given.add (s : Store) (scope : Scope) (g : Given) (u : Use) : Except Reply Given :=
  match u.switch with
  | .help => .error (.help scope)
  | .version => .error .version
  | .verbose => .ok { g with verbose := u.on }
  | .table => .ok { g with table := u.on }
  | .incremental => .ok { g with incremental := some u.on }
  | .root => (directoryOf s scope .root u.operand).map fun t ↦ { g with root := some t }
  | .port => (integerOf scope .port u.operand).map fun n ↦ { g with port := some n }

/-- The uses that count, the last of each switch, in the order in which they are checked. -/
def effective (uses : List Use) : List Use :=
  let switches := (uses.map Use.switch).eraseDups
  let ordered := switches.filter (·.isEager) ++ switches.filter fun w ↦ !w.isEager
  ordered.filterMap fun w ↦ uses.reverse.find? fun u ↦ u.switch = w

/-- The values and the words of the arguments of a scope. -/
def valuesOf (s : Store) (scope : Scope) (args : List Text) : Except Reply (Given × List Text) := do
  let read ← (Arguments.read scope args).mapError fun fault ↦ .refused (.arguments scope fault)
  let given ← (effective read.uses).foldlM (Given.add s scope) {}
  return (given, read.words)

def taskOf (g : Given) : Command → Task
  | .init => .init g.root
  | .generate => .generate g.root g.incremental g.table
  | .serve => .serve g.root g.port

/-- What a command line asks for. A name that is not of a command is first read as a switch. -/
def request (s : Store) (args : List Text) : Except Reply Request := do
  if args.isEmpty then .error .nothing
  match ← valuesOf s .program args with
  | (_, []) => .error (.refused .noCommand)
  | (given, name :: args) =>
    match ofName? name with
    | none =>
      let _ ← valuesOf s .program (name :: args)
      .error (.refused (.unknownCommand name))
    | some c =>
      let (values, words) ← valuesOf s (.command c) args
      if words.isEmpty then return ⟨given.verbose, taskOf values c⟩
      else .error (.refused (.extraWords (.command c) words))

end RouteCatalog.Command
