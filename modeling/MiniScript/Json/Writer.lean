import MiniScript.Json.Basic

/-!
# Writing JSON

A document is written on one line, or with one item a line and two blanks of
indentation a level. Only quotes, backslashes and control characters are escaped.
-/

namespace MiniScript.Json

def hexChar (digit : Nat) : Char :=
  if digit < 10 then Char.ofNat (48 + digit) else Char.ofNat (87 + digit)

def escapeChar (char : Char) : List Char :=
  if char = '"' then ['\\', '"']
  else if char = '\\' then ['\\', '\\']
  else if char = '\x08' then ['\\', 'b']
  else if char = '\x0c' then ['\\', 'f']
  else if char = '\n' then ['\\', 'n']
  else if char = '\r' then ['\\', 'r']
  else if char = '\t' then ['\\', 't']
  else if char.toNat < 0x20 then
    ['\\', 'u', '0', '0', hexChar (char.toNat / 16), hexChar (char.toNat % 16)]
  else [char]

def quote (text : String) : String :=
  "\"" ++ String.ofList (text.toList.flatMap escapeChar) ++ "\""

mutual

/-- Adds the document to `out`, on one line. -/
def compactOnto (out : String) : Json → String
  | .null => out ++ "null"
  | .bool value => out ++ if value then "true" else "false"
  | .number lexeme => out ++ lexeme
  | .string value => out ++ quote value
  | .array items => compactItems (out ++ "[") items ++ "]"
  | .object fields => compactFields (out ++ "\x7b") fields ++ "\x7d"

def compactItems (out : String) : List Json → String
  | [] => out
  | [item] => compactOnto out item
  | item :: rest => compactItems (compactOnto out item ++ ",") rest

def compactFields (out : String) : List (String × Json) → String
  | [] => out
  | [(name, value)] => compactOnto (out ++ quote name ++ ":") value
  | (name, value) :: rest =>
      compactFields (compactOnto (out ++ quote name ++ ":") value ++ ",") rest

end

/-- The document on one line. -/
def compact (document : Json) : String :=
  compactOnto "" document

def indentation (level : Nat) : String :=
  String.ofList (List.replicate (2 * level) ' ')

mutual

/-- Adds the document to `out`, its items on lines of their own, inside `level` brackets. -/
def prettyOnto (out : String) (level : Nat) : Json → String
  | .null => out ++ "null"
  | .bool value => out ++ if value then "true" else "false"
  | .number lexeme => out ++ lexeme
  | .string value => out ++ quote value
  | .array [] => out ++ "[]"
  | .array (item :: rest) =>
      prettyItems (out ++ "[\n") (level + 1) (item :: rest) ++ "\n" ++ indentation level ++ "]"
  | .object [] => out ++ "\x7b\x7d"
  | .object (field :: rest) =>
      prettyFields (out ++ "\x7b\n") (level + 1) (field :: rest) ++ "\n" ++ indentation level ++
        "\x7d"

def prettyItems (out : String) (level : Nat) : List Json → String
  | [] => out
  | [item] => prettyOnto (out ++ indentation level) level item
  | item :: rest =>
      prettyItems (prettyOnto (out ++ indentation level) level item ++ ",\n") level rest

def prettyFields (out : String) (level : Nat) : List (String × Json) → String
  | [] => out
  | [(name, value)] => prettyOnto (out ++ indentation level ++ quote name ++ ": ") level value
  | (name, value) :: rest =>
      prettyFields
        (prettyOnto (out ++ indentation level ++ quote name ++ ": ") level value ++ ",\n")
        level rest

end

/-- The document with one item a line. -/
def pretty (document : Json) : String :=
  prettyOnto "" 0 document

end MiniScript.Json
