import MiniScript.Code.Basic

/-!
# Function definitions

A definition has parameters with default values and a body: code, one of the
built-in functions, the loading of a module, or a native that the host has
registered under a number.
-/

namespace MiniScript

/-- The built-in functions. -/
inductive Builtin where
  | print | str | range
  | len | push | pop | remove | indexOf | hasIndex | indexes | values | join | split | upper | lower
  | abs | floor | time | wait | yield
  | listType | textType | numberType | mapType | functionType
deriving DecidableEq, Repr, Inhabited

structure Parameter where
  name : String
  /-- Null when the parameter has no default of its own. -/
  default : Value
deriving Inhabited

inductive Body where
  | script (code : Code)
  | builtin (builtin : Builtin)
  /-- Loads a module. -/
  | importer
  | host (id : Nat)

/-- A reference that leads nowhere stands for a function that answers null. -/
instance : Inhabited Body := ⟨.builtin .len⟩

def Body.isNative : Body → Bool
  | .script _ => false
  | .builtin _ => true
  | .importer => true
  | .host _ => true

structure Definition where
  name : Option String
  params : List Parameter
  body : Body
deriving Inhabited

/-- The parameter that a method's receiver fills. -/
def selfName : String := "self"

/-- The variable that holds the parent of the map a method was found in. -/
def superName : String := "super"

/-- The key of a map's parent. -/
def isaName : String := "__isa"

namespace Definition

def takesSelf (definition : Definition) : Bool :=
  match definition.params with
  | [] => false
  | param :: _ => param.name == selfName

/-- The name in messages. -/
def displayName (definition : Definition) : String :=
  definition.name.getD "function"

end Definition

end MiniScript
