import RouteCatalog.Command.Basic
import RouteCatalog.Text.Split

/-!
# Arguments

Arguments are read from left to right into uses of switches and other words. An operand is the rest
of its argument, after an equals sign for a long form, or else the next argument, whatever it looks
like. Short forms can be joined in one argument. Two hyphens alone end the switches.

The words of a command may stand between its switches. The first word of the program itself is the
name of a command and ends its switches.
-/

namespace RouteCatalog.Command

/-- A switch as it is used. -/
structure Use where
  switch : Switch
  on : Bool := true
  /-- Its operand, if it takes one. -/
  operand : Text := []
  deriving DecidableEq

/-- What arguments say. -/
structure Arguments where
  /-- The uses of switches, in order. -/
  uses : List Use := []
  words : List Text := []
  deriving DecidableEq

namespace Arguments

/-- Why arguments cannot be read. -/
inductive Fault
  /-- There is no switch of this form. -/
  | unknown (form : Text)
  /-- The operand of the switch, as it was written, is missing. -/
  | noOperand (form : Text)
  /-- The switch, as it was written, takes no operand but has one. -/
  | unwantedOperand (form : Text)
  deriving DecidableEq

/-- What one argument says: uses of switches, and a last switch, as it was written, whose operand
has still to come. -/
structure Reading where
  uses : List Use := []
  /-- The switch whose operand is the next argument, and its form. -/
  pending : Option (Switch × Text) := none

/-- A long form before an equals sign, and what follows it. -/
def splitForm (arg : Text) : Text × Option Text :=
  let form := arg.takeWhile (· ≠ CodePoint.ofChar '=')
  (form, Text.dropLiteral? "=" (arg.drop form.length))

/-- The switch of a scope that has a long form, and whether the form turns it on. -/
def ofLongForm? (scope : Scope) (form : Text) : Option (Switch × Bool) :=
  scope.switches.findSome? fun s ↦
    if s.long = form then some (s, true) else if s.off? = some form then some (s, false) else none

def readLetters (scope : Scope) : Text → Except Fault Reading
  | [] => .ok {}
  | letter :: rest =>
    match scope.switches.find? fun s ↦ s.letter? = some letter with
    | none => .error (.unknown (Switch.shortForm letter))
    | some s =>
      if s.operand?.isSome then
        if rest.isEmpty then .ok { pending := some (s, Switch.shortForm letter) }
        else .ok { uses := [{ switch := s, operand := rest }] }
      else (readLetters scope rest).map fun r ↦ { r with uses := { switch := s } :: r.uses }

def readSwitch (scope : Scope) (arg : Text) : Except Fault Reading :=
  let (form, operand) := splitForm arg
  match ofLongForm? scope form with
  | some (s, on) =>
    match s.operand?, operand with
    | some _, some t => .ok { uses := [{ switch := s, operand := t }] }
    | some _, none => .ok { pending := some (s, form) }
    | none, some _ => .error (.unwantedOperand form)
    | none, none => .ok { uses := [{ switch := s, on }] }
  | none =>
    if Text.startsWith "--" arg then .error (.unknown form) else readLetters scope arg.tail

/-- The argument is read as a switch: a hyphen, and more. -/
def isSwitch (arg : Text) : Bool := Text.startsWith "-" arg && 1 < arg.length

/-- Puts uses in front of what later arguments say. -/
def addUses (uses : List Use) (a : Arguments) : Arguments := { a with uses := uses ++ a.uses }

/-- Puts a word in front of what later arguments say. -/
def addWord (word : Text) (a : Arguments) : Arguments := { a with words := word :: a.words }

def read (scope : Scope) : List Text → Except Fault Arguments
  | [] => .ok {}
  | arg :: rest =>
    if arg = "--" then .ok { words := rest }
    else if isSwitch arg then
      match readSwitch scope arg with
      | .error fault => .error fault
      | .ok ⟨uses, none⟩ => (read scope rest).map (addUses uses)
      | .ok ⟨uses, some (s, form)⟩ =>
        match rest with
        | [] => .error (.noOperand form)
        | operand :: rest => (read scope rest).map (addUses (uses ++ [{ switch := s, operand }]))
    else if scope = .program then .ok { words := arg :: rest }
    else (read scope rest).map (addWord arg)

end Arguments

end RouteCatalog.Command
