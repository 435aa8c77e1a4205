import MiniScript.Heap.Basic
import MiniScript.Heap.Shape
import MiniScript.Number.Text

/-!
# The text of values

Inside collections strings are quoted, a quote inside being doubled. Collections
more than sixteen deep are cut short. A function shows its parameters and those
defaults that are not null.
-/

namespace MiniScript

/-- A string in quotes, each quote inside it doubled. -/
def quoteText (text : String) : String :=
  "\"" ++ String.ofList (text.toList.flatMap fun char =>
    if char = '"' then ['"', '"'] else [char]) ++ "\""

namespace Heap

/-- The text of a value, with `fuel` nested steps left and `remaining` containers to open. The
defaults in a function's signature start afresh. The list `busy`, which is being changed, is cut
short. -/
def renderWithin (heap : Heap) (busy : Option ListRef) : Nat → Nat → Value → String
  | _, _, .null => "null"
  | _, _, .number value => Number.display value
  | _, _, .text value => quoteText value
  | 0, _, _ => "…"
  | _ + 1, 0, .list _ => "[…]"
  | _ + 1, 0, .map _ => "\x7b…\x7d"
  | fuel + 1, remaining + 1, .list ref =>
      if busy = some ref then "[…]"
      else
        "[" ++
          ", ".intercalate ((heap.items ref).toList.map (heap.renderWithin busy fuel remaining)) ++
          "]"
  | fuel + 1, remaining + 1, .map ref =>
      "\x7b" ++ ", ".intercalate ((heap.entries ref).map fun entry =>
        heap.renderWithin busy fuel remaining entry.key ++ ": " ++
          heap.renderWithin busy fuel remaining entry.value) ++ "\x7d"
  | fuel + 1, _, .function closure =>
      "FUNCTION(" ++ ", ".intercalate ((heap.definition closure.definition).params.map fun param =>
        if param.default.isNull then param.name
        else param.name ++ "=" ++ heap.renderWithin busy fuel structureDepth param.default) ++ ")"

/-- More nested steps than there can be when no default leads back to its own function. -/
def renderFuel (heap : Heap) : Nat :=
  (structureDepth + 2) * (heap.functions.size + 1)

/-- The text of a value while the list `busy` is being changed. -/
def reprDuring (heap : Heap) (busy : Option ListRef) (value : Value) : String :=
  heap.renderWithin busy heap.renderFuel structureDepth value

/-- The text inside collections: strings are quoted. -/
def repr (heap : Heap) (value : Value) : String :=
  heap.reprDuring none value

/-- The text that is printed: a string stands for itself. -/
def display (heap : Heap) : Value → String
  | .text value => value
  | value => heap.repr value

/-- The parameters of a definition as a function value shows them. -/
def signature (heap : Heap) (definition : Definition) : String :=
  "FUNCTION(" ++ ", ".intercalate (definition.params.map fun param =>
    if param.default.isNull then param.name
    else param.name ++ "=" ++ heap.repr param.default) ++ ")"

/-- The text of a map with its interceptors counted. -/
def describeMap (heap : Heap) (ref : MapRef) : String :=
  let text := "\x7b" ++ ", ".intercalate ((heap.entries ref).map fun entry =>
    heap.repr entry.key ++ ": " ++ heap.repr entry.value) ++ "\x7d"
  match (heap.mapAt ref).interceptors.length with
  | 0 => text
  | count => text ++ " (" ++ toString count ++ " interceptors)"

end Heap

end MiniScript
