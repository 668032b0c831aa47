import RouteCatalog.Number.Shortest

/-!
# JSON values

Integers and floating-point numbers are different values, as they are different texts: `1` and `1.0`
do not compare equal. Strings may hold lone surrogates, and the numbers that JSON proper lacks, the
infinities and not-a-number, are values too. The members of an object keep the order in which their
keys first appeared.
-/

namespace RouteCatalog

/-- A JSON value. -/
inductive Json
  | null
  | bool (value : Bool)
  | int (value : Int)
  | float (value : Binary64)
  | str (value : Text)
  | arr (items : List Json)
  | obj (members : List (Text × Json))

namespace Json

instance : Inhabited Json := ⟨.null⟩

/-- The two kinds of nesting. -/
inductive Container
  | array
  | object
  deriving DecidableEq

/-- Sets a member: a known key keeps its place and takes the new value, a new key goes last. -/
def setMember (key : Text) (value : Json) : List (Text × Json) → List (Text × Json)
  | [] => [(key, value)]
  | (k, v) :: rest => if k = key then (k, value) :: rest else (k, v) :: setMember key value rest

/-- The object of a sequence of members: of members with one key the last gives the value, and the
first gives the place. -/
def ofMembers (members : List (Text × Json)) : Json :=
  .obj (members.foldl (fun done (k, v) ↦ setMember k v done) [])

def member? (key : Text) : List (Text × Json) → Option Json
  | [] => none
  | (k, v) :: rest => if k = key then some v else member? key rest

theorem member?_setMember (key : Text) (value : Json) (members : List (Text × Json)) (k : Text) :
    member? k (setMember key value members) =
      if k = key then some value else member? k members := by
  induction members with
  | nil => simp [setMember, member?, eq_comm]
  | cons m rest ih =>
    obtain ⟨k', v'⟩ := m
    by_cases h : k' = key
    · subst h
      by_cases hk : k = k' <;> simp [setMember, member?, hk, eq_comm]
    · by_cases hk : k' = k
      · subst hk
        simp [setMember, member?, h]
      · simp [setMember, member?, h, hk, ih]

mutual

/-- The number of containers around the innermost value. -/
def depth : Json → Nat
  | .arr items => depthItems items + 1
  | .obj members => depthMembers members + 1
  | _ => 0

def depthItems : List Json → Nat
  | [] => 0
  | v :: rest => max v.depth (depthItems rest)

def depthMembers : List (Text × Json) → Nat
  | [] => 0
  | (_, v) :: rest => max v.depth (depthMembers rest)

end

end Json

end RouteCatalog
