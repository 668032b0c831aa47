import RouteCatalog.Text.CodePoint

/-!
# Commands and their switches

The program has three commands. Arguments belong to a scope, the program itself or one of its
commands, and every scope has switches of its own. A switch is written in a long form, some also in
a short form of one letter, and one that can be turned off has a second long form for that. Some
take an operand.
-/

namespace RouteCatalog

/-- The commands of the program, in the order in which they are listed. -/
inductive Command
  /-- Scan a project and write its snapshot. -/
  | generate
  /-- Write the settings of a project. -/
  | init
  | serve
  deriving DecidableEq

namespace Command

def all : List Command := [.generate, .init, .serve]

def name : Command → Text
  | .generate => "generate"
  | .init => "init"
  | .serve => "serve"

def ofName? (t : Text) : Option Command := all.find? fun c ↦ c.name = t

def purpose : Command → Text
  | .generate => "Generate .zeus-core/output.json from a backend project."
  | .init => "Initialize zeus-core in a backend project."
  | .serve => "Serve the generated output.json."

/-- What an operand stands for. -/
inductive Operand
  | directory
  | integer
  deriving DecidableEq

def Operand.name : Operand → Text
  | .directory => "DIRECTORY"
  | .integer => "INTEGER"

/-- The switches of all scopes. -/
inductive Switch
  | version
  | verbose
  | root
  | port
  /-- Whether the new scan is compared with the earlier snapshot. -/
  | incremental
  /-- Show the endpoints as a table. -/
  | table
  | help
  deriving DecidableEq

namespace Switch

def long : Switch → Text
  | .version => "--version"
  | .verbose => "--verbose"
  | .root => "--root"
  | .port => "--port"
  | .incremental => "--incremental"
  | .table => "--table"
  | .help => "--help"

def letter? : Switch → Option CodePoint
  | .verbose => some 'v'
  | .root => some 'r'
  | .port => some 'p'
  | _ => none

def shortForm (letter : CodePoint) : Text := [CodePoint.ofChar '-', letter]

/-- The long form that turns a switch off. -/
def off? : Switch → Option Text
  | .incremental => some "--no-incremental"
  | _ => none

def operand? : Switch → Option Operand
  | .root => some .directory
  | .port => some .integer
  | _ => none

/-- The switch answers by itself, before operands are looked at. -/
def isEager : Switch → Bool
  | .version | .help => true
  | _ => false

/-- What a switch is for. -/
def purpose : Switch → Text
  | .version => "Show the version and exit."
  | .verbose => "Enable verbose output."
  | .root => "Project root directory."
  | .port => "Port to listen on (default: 4173)."
  | .incremental => "Compare against the previous snapshot (default from config)."
  | .table => "Print found endpoints."
  | .help => "Show this message and exit."

/-- The long forms, the one that turns the switch off last. -/
def longForms (s : Switch) : List Text := s.long :: s.off?.toList

end Switch

/-- Whose arguments are read. -/
inductive Scope
  /-- The arguments of the program itself. -/
  | program
  | command (c : Command)
  deriving DecidableEq

namespace Scope

def programName : Text := "zeus-core"

/-- The words that lead to a scope. -/
def words : Scope → Text
  | .program => programName
  | .command c => programName ++ " " ++ c.name

/-- What the scope is about. -/
def purpose : Scope → Text
  | .program => programName ++ " — extract documented HTTP endpoints from a backend project."
  | .command c => c.purpose

/-- The arguments of a scope in short. -/
def arguments : Scope → Text
  | .program => "[OPTIONS] COMMAND [ARGS]..."
  | .command _ => "[OPTIONS]"

/-- The switches of a scope, in the order in which they are listed. -/
def switches : Scope → List Switch
  | .program => [.version, .verbose, .help]
  | .command .generate => [.root, .incremental, .table, .help]
  | .command .init => [.root, .help]
  | .command .serve => [.root, .port, .help]

def longForms (s : Scope) : List Text := s.switches.flatMap Switch.longForms

end Scope

end Command

end RouteCatalog
