import MiniScript.Heap.Render
import MiniScript.Text.CharClass

/-!
# Descriptions of definitions

The text in which a host sees a definition: its name in quotes, its parameters
with their defaults, and whether it is a native.
-/

namespace MiniScript

/-- A number in lower case hexadecimal digits. -/
def hexText (code : Nat) : List Char :=
  Nat.toDigits 16 code

/-- A character inside quotes. Quotes and backslashes are escaped, and so are characters without
a shape of their own. -/
def escapedChar (char : Char) : List Char :=
  if char = '"' then ['\\', '"']
  else if char = '\\' then ['\\', '\\']
  else if Text.isShapeless char then
    ['\\', 'u', '\x7b'] ++ hexText char.toNat ++ ['\x7d']
  else [char]

/-- A name in quotes. -/
def quotedName (name : String) : String :=
  "\"" ++ String.ofList (name.toList.flatMap escapedChar) ++ "\""

namespace Heap

def describeParameter (heap : Heap) (param : Parameter) : String :=
  "ParamDef \x7b name: " ++ quotedName param.name ++ ", default: " ++ heap.repr param.default ++
    " \x7d"

def describeDefinition (heap : Heap) (definition : Definition) : String :=
  let name := match definition.name with
    | some name => "Some(" ++ quotedName name ++ ")"
    | none => "None"
  "FunctionDef \x7b name: " ++ name ++ ", params: [" ++
    ", ".intercalate (definition.params.map heap.describeParameter) ++ "], native: " ++
    toString definition.body.isNative ++ " \x7d"

end Heap

end MiniScript
