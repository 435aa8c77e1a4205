import MiniScript.Text.Search

/-!
# Arguments of the command line

One script, and options in any place: the script's tree instead of its run, a
trace of its lines, a file with limits and a limit for the depth of calls. No
option may come twice. An option takes its value after an equals sign or from the
next argument, which must not look like an option. After two dashes everything is
a script.
-/

namespace MiniScript.CommandLine

structure Arguments where
  file : Option String := none
  ast : Bool := false
  traceLines : Bool := false
  config : Option String := none
  maxDepth : Option Nat := none
deriving DecidableEq, Repr

inductive Request where
  | run (file : String) (arguments : Arguments)
  | help
  | invalid
deriving DecidableEq, Repr

/-- A decimal number of at most sixty-four bits; a plus sign may stand before it. -/
def readCount? (text : String) : Option Nat :=
  let digits := match text.toList with
    | '+' :: digits => digits
    | digits => digits
  if digits.isEmpty || !digits.all Char.isDigit then none
  else
    let value := digits.foldl (fun value digit => value * 10 + (digit.toNat - 48)) 0
    if value < UInt64.size then some value else none

/-- Whether an argument is an option rather than a script or a value. -/
def looksLikeOption (argument : String) : Bool :=
  match argument.toList with
  | '-' :: _ :: _ => true
  | _ => false

namespace Arguments

def withFile? (arguments : Arguments) (file : String) : Option Arguments :=
  if file.isEmpty || arguments.file.isSome then none
  else some { arguments with file := some file }

/-- Takes all arguments as scripts. -/
def withFiles? (arguments : Arguments) : List String → Option Arguments
  | [] => some arguments
  | file :: files => (arguments.withFile? file).bind fun arguments => arguments.withFiles? files

/-- Sets an option that stands alone. -/
def withFlag? (arguments : Arguments) (name : String) : Option Arguments :=
  match name with
  | "ast" => if arguments.ast then none else some { arguments with ast := true }
  | "trace-lines" =>
      if arguments.traceLines then none else some { arguments with traceLines := true }
  | _ => none

/-- Sets an option that has a value. -/
def withValue? (arguments : Arguments) (name value : String) : Option Arguments :=
  match name with
  | "config" =>
      if value.isEmpty || arguments.config.isSome then none
      else some { arguments with config := some value }
  | "max-depth" =>
      if arguments.maxDepth.isSome then none
      else (readCount? value).map fun depth => { arguments with maxDepth := some depth }
  | _ => none

def takesValue (name : String) : Bool :=
  name == "config" || name == "max-depth"

def request : Option Arguments → Request
  | some arguments =>
      match arguments.file with
      | some file => .run file arguments
      | none => .invalid
  | none => .invalid

/-- Takes the arguments from left to right. -/
def read (arguments : Arguments) : List String → Request
  | [] => request (some arguments)
  | argument :: rest =>
      match argument.toList with
      | ['-', '-'] => request (arguments.withFiles? rest)
      | '-' :: '-' :: name =>
          match Text.cutAt? ['='] name with
          | some (name, value) =>
              match arguments.withValue? (String.ofList name) (String.ofList value) with
              | some arguments => read arguments rest
              | none => .invalid
          | none =>
              if String.ofList name = "help" then .help
              else if takesValue (String.ofList name) then
                match rest with
                | [] => .invalid
                | value :: rest =>
                    if looksLikeOption value then .invalid
                    else
                      match arguments.withValue? (String.ofList name) value with
                      | some arguments => read arguments rest
                      | none => .invalid
              else
                match arguments.withFlag? (String.ofList name) with
                | some arguments => read arguments rest
                | none => .invalid
      | '-' :: 'h' :: _ => .help
      | '-' :: _ :: _ => .invalid
      | _ =>
          match arguments.withFile? argument with
          | some arguments => read arguments rest
          | none => .invalid

end Arguments

end MiniScript.CommandLine
