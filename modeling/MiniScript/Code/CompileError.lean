/-!
# Why a tree or a build has no code
-/

namespace MiniScript

/-- What keeps a tree from being compiled or code from being finished. -/
inductive CompileFault where
  | nonLiteralDefault (param : String)
  | referenceToCall
  | breakOutsideLoop
  | continueOutsideLoop
  | invalidTarget
  | chainMismatch
  | boundTwice (label : Nat)
  | unknownLabel (label : Nat)
  | unresolvedLabel (label : Nat)
deriving DecidableEq, Repr

namespace CompileFault

/-- Forms that have no meaning yet, as opposed to trees and builds that are broken. -/
def isUnimplemented : CompileFault → Bool
  | .nonLiteralDefault _ => true
  | .referenceToCall => true
  | _ => false

def reason : CompileFault → String
  | .nonLiteralDefault param => "non-literal default for parameter '" ++ param ++ "'"
  | .referenceToCall => "'@' applied to a call result"
  | .breakOutsideLoop => "'break' outside of a loop"
  | .continueOutsideLoop => "'continue' outside of a loop"
  | .invalidTarget => "invalid assignment target"
  | .chainMismatch => "comparison chain operand count mismatch"
  | .boundTwice label => "address label L" ++ toString label ++ " bound twice"
  | .unknownLabel label => "unknown address label L" ++ toString label
  | .unresolvedLabel label => "unresolved address label L" ++ toString label

end CompileFault

structure CompileError where
  fault : CompileFault
  line : Nat
deriving DecidableEq, Repr

def CompileError.message (error : CompileError) : String :=
  "Compiler Error: " ++ error.fault.reason ++ " [line " ++ toString error.line ++ "]"

end MiniScript
