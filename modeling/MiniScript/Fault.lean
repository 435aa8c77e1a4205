import MiniScript.Code.CompileError
import MiniScript.Number.Text
import MiniScript.Token.Basic
import MiniScript.Program.Tree
import MiniScript.Value.Basic

/-!
# What goes wrong while a program runs

A fault is a cause; its wording is in one place. A runtime error adds the line
and the source where the fault arose, once they are known.
-/

namespace MiniScript

inductive FaultKind where
  | undefinedIdentifier | typeMismatch | keyNotFound | indexOutOfRange | immutable | stackTooDeep
  | isaChainTooDeep | tooManyArguments | limitExceeded | library
deriving DecidableEq, Repr

inductive Fault where
  | undefined (name : String)
  | cannotApply (op : BinaryOp) (left right : Kind)
  | cannotNegate (kind : Kind)
  | cannotIndexNull (key : String)
  | cannotStore (kind : Kind)
  | listIndex (kind : Kind)
  | cannotSlice (kind : Kind)
  | sliceBound (kind : Kind)
  | cannotInstantiate (kind : Kind)
  | cannotIterate (kind : Kind)
  | cannotCall (kind : Kind)
  | wrongReceiver (function : String) (kind : Kind)
  | notANumber (function param : String) (kind : Kind)
  | importName
  | keyNotFound (key : String)
  | indexOutOfRange (index : Int) (length : Nat)
  | removalOutOfRange (key : String)
  | immutableText
  | callStackTooDeep (limit : Nat)
  | isaChainTooDeep (limit : Nat)
  | tooManyArguments (function : String) (capacity given : Nat)
  | sequenceTooLong (length limit : Nat)
  | rangeTooLong (count : Float) (limit : Nat)
  | rangeStep
  | circularImport (module : String)
  | noLoader
  | moduleNotFound (module : String)
  | importFailed (module reason : String)
  | library (message : String)

namespace Fault

def kind : Fault → FaultKind
  | .undefined _ => .undefinedIdentifier
  | .cannotApply .. => .typeMismatch
  | .cannotNegate _ => .typeMismatch
  | .cannotIndexNull _ => .typeMismatch
  | .cannotStore _ => .typeMismatch
  | .listIndex _ => .typeMismatch
  | .cannotSlice _ => .typeMismatch
  | .sliceBound _ => .typeMismatch
  | .cannotInstantiate _ => .typeMismatch
  | .cannotIterate _ => .typeMismatch
  | .cannotCall _ => .typeMismatch
  | .wrongReceiver .. => .typeMismatch
  | .notANumber .. => .typeMismatch
  | .importName => .typeMismatch
  | .keyNotFound _ => .keyNotFound
  | .indexOutOfRange .. => .indexOutOfRange
  | .removalOutOfRange _ => .indexOutOfRange
  | .immutableText => .immutable
  | .callStackTooDeep _ => .stackTooDeep
  | .isaChainTooDeep _ => .isaChainTooDeep
  | .tooManyArguments .. => .tooManyArguments
  | .sequenceTooLong .. => .limitExceeded
  | .rangeTooLong .. => .limitExceeded
  | .rangeStep => .library
  | .circularImport _ => .library
  | .noLoader => .library
  | .moduleNotFound _ => .library
  | .importFailed .. => .library
  | .library _ => .library

def message : Fault → String
  | .undefined name => "Undefined Identifier: '" ++ name ++ "' is unknown in this context"
  | .cannotApply op left right =>
      "Type Mismatch: can't apply '" ++ op.symbol ++ "' to " ++ left.name ++ " and " ++ right.name
  | .cannotNegate kind => "Type Mismatch: can't negate " ++ kind.name
  | .cannotIndexNull key => "Type Mismatch: can't index into null with " ++ key
  | .cannotStore kind => "Type Mismatch: can't assign by index into " ++ kind.name
  | .listIndex kind => "Type Mismatch: list index must be a number, got " ++ kind.name
  | .cannotSlice kind => "Type Mismatch: can't slice " ++ kind.name
  | .sliceBound kind => "Type Mismatch: slice bound must be a number, got " ++ kind.name
  | .cannotInstantiate kind => "Type Mismatch: 'new' requires a map, got " ++ kind.name
  | .cannotIterate kind => "Type Mismatch: can't iterate over " ++ kind.name
  | .cannotCall kind => "Type Mismatch: can't call a " ++ kind.name ++ " with arguments"
  | .wrongReceiver function kind =>
      "Type Mismatch: " ++ function ++ " does not apply to " ++ kind.name
  | .notANumber function param kind =>
      function ++ ": expected a number for '" ++ param ++ "', got " ++ kind.name
  | .importName => "Type Mismatch: import() requires a module name string"
  | .keyNotFound key => "Key Not Found: '" ++ key ++ "' not found in map"
  | .indexOutOfRange index length =>
      "Index Error: index (" ++ toString index ++ ") out of range for length " ++ toString length
  | .removalOutOfRange key => "Index Error: index (" ++ key ++ ") out of range"
  | .immutableText => "can't assign into a string; strings are immutable"
  | .callStackTooDeep limit => "Call stack too deep (limit " ++ toString limit ++ ")"
  | .isaChainTooDeep limit =>
      "__isa depth exceeded (limit " ++ toString limit ++ "); is there a cycle?"
  | .tooManyArguments function capacity given =>
      "Too Many Arguments: " ++ function ++ " takes " ++ toString capacity ++ ", got " ++
        toString given
  | .sequenceTooLong length limit =>
      "sequence of " ++ toString length ++ " elements exceeds the limit of " ++ toString limit
  | .rangeTooLong count limit =>
      "range() of " ++ Number.plain count ++ " elements exceeds the limit of " ++ toString limit
  | .rangeStep => "range() step must be a non-zero number"
  | .circularImport module => "circular import of module '" ++ module ++ "'"
  | .noLoader => "import: no module loader is configured"
  | .moduleNotFound module => "import: module '" ++ module ++ "' not found"
  | .importFailed module reason => "import '" ++ module ++ "': " ++ reason
  | .library message => message

end Fault

structure RuntimeError where
  fault : Fault
  line : Option Nat := none
  sourceName : Option String := none

namespace RuntimeError

/-- Adds a place, unless one was recorded closer to the fault. -/
def locate (error : RuntimeError) (line : Option Nat) (sourceName : Option String) : RuntimeError :=
  match error.line with
  | some _ => error
  | none => { error with line, sourceName }

def place (error : RuntimeError) : String :=
  match error.line, error.sourceName with
  | some line, some name => " [" ++ name ++ " line " ++ toString line ++ "]"
  | some line, none => " [line " ++ toString line ++ "]"
  | none, _ => ""

def message (error : RuntimeError) : String :=
  "Runtime Error: " ++ error.fault.message ++ error.place

theorem locate_of_line {error : RuntimeError} {known : Nat} (located : error.line = some known)
    (line : Option Nat) (sourceName : Option String) : error.locate line sourceName = error := by
  simp [locate, located]

end RuntimeError

/-- Code that no compiler writes, or a machine that nothing can wake. -/
inductive Defect where
  | underflow
  | malformedOperand (operand : String) (op : String)
  | unresolvedTarget (operand : String)
  | noInstruction (position : Nat)
  | inactiveLoop (id : Nat)
  | leftover (count : Nat)
  | noResult
  | hopeless
deriving DecidableEq, Repr

def Defect.message : Defect → String
  | .underflow => "operand stack underflow"
  | .malformedOperand operand op => "malformed operand " ++ operand ++ " for " ++ op
  | .unresolvedTarget operand => "unresolved jump target " ++ operand
  | .noInstruction position => "no instruction at " ++ toString position
  | .inactiveLoop id => "for-loop " ++ toString id ++ " is not active"
  | .leftover count => "operand stack holds " ++ toString count ++ " value(s) at completion"
  | .noResult => "deferred value resolved without a result"
  | .hopeless => "suspended on a deferred value that nothing will complete"

/-- Everything a host can see go wrong. -/
inductive ScriptError where
  | parse (error : ParseError)
  | compile (error : CompileError)
  | runtime (error : RuntimeError)
  | internal (defect : Defect)

def ScriptError.message : ScriptError → String
  | .parse error => error.message
  | .compile error => error.message
  | .runtime error => error.message
  | .internal defect => "Internal Error: " ++ defect.message

end MiniScript
