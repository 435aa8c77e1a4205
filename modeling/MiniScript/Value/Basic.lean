/-!
# Values

Booleans are the numbers one and zero. Lists and maps are references into the
heap and are shared; everything else is a plain value. A function value is a
definition together with the scope it was made in.
-/

namespace MiniScript

/-- A list in the heap. -/
structure ListRef where
  index : Nat
deriving DecidableEq, Repr, Inhabited

/-- A map in the heap. -/
structure MapRef where
  index : Nat
deriving DecidableEq, Repr, Inhabited

/-- A scope in the heap. -/
structure ScopeRef where
  index : Nat
deriving DecidableEq, Repr, Inhabited

/-- A function definition in the heap. -/
structure FunctionRef where
  index : Nat
deriving DecidableEq, Repr, Inhabited

/-- A definition bound to the scope that was current when it was evaluated. -/
structure Closure where
  definition : FunctionRef
  outer : Option ScopeRef
deriving DecidableEq, Repr

inductive Value where
  | null
  | number (value : Float)
  | text (value : String)
  | list (ref : ListRef)
  | map (ref : MapRef)
  | function (closure : Closure)
deriving Inhabited

inductive Kind where
  | null | number | text | list | map | function
deriving DecidableEq, Repr

/-- The name of a kind in messages. -/
def Kind.name : Kind → String
  | .null => "null"
  | .number => "number"
  | .text => "string"
  | .list => "list"
  | .map => "map"
  | .function => "function"

namespace Value

def kind : Value → Kind
  | .null => .null
  | .number _ => .number
  | .text _ => .text
  | .list _ => .list
  | .map _ => .map
  | .function _ => .function

/-- One for true, zero for false. -/
def truth (condition : Bool) : Value :=
  .number (if condition then 1.0 else 0.0)

def isNull : Value → Bool
  | .null => true
  | _ => false

def asNumber? : Value → Option Float
  | .number value => some value
  | _ => none

/-- Lists and maps. -/
def isContainer : Value → Bool
  | .list _ => true
  | .map _ => true
  | _ => false

/-- Equality of values that are no containers. -/
def sameScalar : Value → Value → Bool
  | .null, .null => true
  | .number left, .number right => left == right
  | .text left, .text right => left == right
  | .function left, .function right => left == right
  | _, _ => false

/-- Whether both are one and the same list, map or function. -/
def sameReference : Value → Value → Bool
  | .list left, .list right => left == right
  | .map left, .map right => left == right
  | .function left, .function right => left == right
  | _, _ => false

theorem sameScalar_text (left right : String) :
    sameScalar (.text left) (.text right) = true ↔ left = right := by
  simp [sameScalar]

end Value

end MiniScript
