import MiniScript.Heap.Render
import MiniScript.Number.Reading
import MiniScript.Text.CharClass
import MiniScript.Text.Search

/-!
# Signatures of native functions

A signature is a name and, in parentheses, parameters with literal defaults:
`join(self, delimiter=" ")`. Commas inside quotes do not separate parameters, and
a quote inside a quoted default is written twice.
-/

namespace MiniScript

/-- What keeps a text from being a signature. -/
inductive SignatureFault where
  | badName | unclosed | unterminatedText | emptyParameter | badDefault | badParameterName
deriving DecidableEq, Repr

def SignatureFault.reason : SignatureFault → String
  | .badName => "missing or invalid function name"
  | .unclosed => "expected closing ')'"
  | .unterminatedText => "unterminated string default"
  | .emptyParameter => "empty parameter"
  | .badDefault => "default must be null, a number or a quoted string"
  | .badParameterName => "invalid parameter name"

structure SignatureError where
  signature : String
  fault : SignatureFault
deriving DecidableEq, Repr

def SignatureError.message (error : SignatureError) : String :=
  "invalid intrinsic signature `" ++ error.signature ++ "`: " ++ error.fault.reason

/-- The name and the parameters of a native function. -/
structure Signature where
  name : String
  params : List Parameter
deriving Inhabited

namespace Signature

def startsIdentifier (char : Char) : Bool :=
  char = '_' || Text.isLetter char

def continuesIdentifier (char : Char) : Bool :=
  char = '_' || Text.isLetter char || Text.isNumeral char

def isIdentifier : List Char → Bool
  | [] => false
  | char :: rest => startsIdentifier char && rest.all continuesIdentifier

/-- Splits at the commas outside quotes; none when a quote stays open. -/
def splitParams : Bool → List Char → Option (List (List Char))
  | true, [] => none
  | false, [] => some [[]]
  | quoted, char :: rest =>
      if char = ',' && !quoted then (splitParams quoted rest).map ([] :: ·)
      else
        (splitParams (if char = '"' then !quoted else quoted) rest).map fun pieces =>
          match pieces with
          | [] => [[char]]
          | piece :: pieces => (char :: piece) :: pieces

/-- Each pair of quotes becomes one. -/
def undouble : List Char → List Char
  | '"' :: '"' :: rest => '"' :: undouble rest
  | char :: rest => char :: undouble rest
  | [] => []

/-- What stands between a quote at the start and another at the end. -/
def unquote? : List Char → Option (List Char)
  | '"' :: rest =>
      match rest.reverse with
      | '"' :: body => some body.reverse
      | _ => none
  | _ => none

/-- A number in plain decimal notation. -/
def readNumber? (text : List Char) : Option Float :=
  let digits := match text with
    | '-' :: digits => digits
    | digits => digits
  if !digits.isEmpty && digits.all (fun char => char.isDigit || char = '.') &&
      digits.count '.' ≤ 1 then
    Number.readSigned text
  else none

def readDefault? (text : List Char) : Option Value :=
  if text = "null".toList then some .null
  else
    match unquote? text with
    | some body => some (.text (String.ofList (undouble body)))
    | none => (readNumber? text).map .number

/-- A name, or a name, an equals sign and a default. -/
def readParam (piece : List Char) : Except SignatureFault Parameter :=
  if piece.isEmpty then .error .emptyParameter
  else
    let name := Text.trimBlanks (piece.takeWhile (· ≠ '='))
    match piece.dropWhile (· ≠ '=') with
    | [] =>
        if isIdentifier name then .ok ⟨String.ofList name, .null⟩ else .error .badParameterName
    | _ :: default =>
        match readDefault? (Text.trimBlanks default) with
        | none => .error .badDefault
        | some default =>
            if isIdentifier name then .ok ⟨String.ofList name, default⟩
            else .error .badParameterName

def readParams : List (List Char) → Except SignatureFault (List Parameter)
  | [] => .ok []
  | piece :: pieces => do
      let param ← readParam (Text.trimBlanks piece)
      let params ← readParams pieces
      return param :: params

/-- The parameters between the parentheses; there may be none at all. -/
def readInner (inner : List Char) : Except SignatureFault (List Parameter) :=
  match splitParams false inner with
  | none => .error .unterminatedText
  | some pieces => if (Text.trimBlanks inner).isEmpty then .ok [] else readParams pieces

def readChars (text : List Char) : Except SignatureFault Signature :=
  let name := Text.trimBlanks (text.takeWhile (· ≠ '('))
  if !isIdentifier name then .error .badName
  else
    match text.dropWhile (· ≠ '(') with
    | [] => .ok ⟨String.ofList name, []⟩
    | _ :: rest =>
        match rest.reverse with
        | ')' :: inner => do
            let params ← readInner inner.reverse
            return ⟨String.ofList name, params⟩
        | _ => .error .unclosed

def read (text : String) : Except SignatureError Signature :=
  match readChars (Text.trimBlanks text.toList) with
  | .ok signature => .ok signature
  | .error fault => .error ⟨text, fault⟩

theorem undouble_flatMap (body : List Char) :
    undouble (body.flatMap fun char => if char = '"' then ['"', '"'] else [char]) = body := by
  induction body with
  | nil => rfl
  | cons char rest ih =>
      by_cases quote : char = '"'
      · subst quote
        simp [undouble, ih]
      · simp only [List.flatMap_cons, if_neg quote, List.singleton_append]
        rw [undouble]
        · rw [ih]
        · intro rest' same
          simp_all

end Signature

end MiniScript
