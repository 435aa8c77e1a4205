/-!
# JSON documents

A document keeps the fields of an object in order, repeated ones included, and a
number as it was written, so that a reader can decide what it accepts.
-/

namespace MiniScript

inductive Json where
  | null
  | bool (value : Bool)
  | number (lexeme : String)
  | string (value : String)
  | array (items : List Json)
  | object (fields : List (String × Json))
deriving Inhabited

namespace Json

/-- The value of the last field called `name`. -/
def field? (document : Json) (name : String) : Option Json :=
  match document with
  | .object fields => (fields.reverse.find? fun entry => entry.1 == name).map (·.2)
  | _ => none

def ofNat (value : Nat) : Json :=
  .number (toString value)

/-- The natural number written by digits alone, without a sign, a point or an exponent. -/
def toNat? : Json → Option Nat
  | .number lexeme =>
      if lexeme.toList.all Char.isDigit then lexeme.toNat? else none
  | _ => none

def toText? : Json → Option String
  | .string value => some value
  | _ => none

def toList? : Json → Option (List Json)
  | .array items => some items
  | _ => none

end Json

end MiniScript
