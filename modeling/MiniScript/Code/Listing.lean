import MiniScript.Heap.Render

/-!
# Listings of code

The text of operands, instructions and code, and the walk through a code and the
functions inside it.
-/

namespace MiniScript

namespace Heap

def operandText (heap : Heap) : Operand → String
  | .none => "-"
  | .int value => toString value
  | .value value => heap.repr value
  | .name name => name
  | .addr address => "@" ++ toString address
  | .func ref => heap.signature (heap.definition ref)
  | .op op => op.symbol
  | .scope scope => scope.describe
  | .label label => "L" ++ toString label

def instrText (heap : Heap) (instr : Instr) : String :=
  instr.op.name ++ " " ++ heap.operandText instr.first ++ " " ++ heap.operandText instr.second

/-- A position with blanks in front, four characters wide. -/
def positionText (position : Nat) : String :=
  let digits := toString position
  String.ofList (List.replicate (4 - digits.length) ' ') ++ digits

/-- One line a instruction, after a line with their number. -/
def codeText (heap : Heap) (code : Code) : String :=
  code.instrs.toList.zipIdx.foldl
    (fun text (instr, position) =>
      text ++ positionText position ++ " " ++ heap.instrText instr ++ "\n")
    ("Code(" ++ toString code.size ++ " ops)\n")

end Heap

/-- One code of a listing. The path leads from the main code through instruction positions. -/
structure ListedCode where
  path : String
  /-- The definition whose body this is; none for the main code. -/
  definition : Option Definition
  code : Code

def Operand.function? : Operand → Option FunctionRef
  | .func ref => Option.some ref
  | _ => Option.none

namespace Heap

/-- The code and, after it, the functions it holds, each followed by its own. -/
def listingWithin (heap : Heap) : Nat → String → Option Definition → Code → List ListedCode
  | 0, _, _, _ => []
  | fuel + 1, path, definition, code =>
      ⟨path, definition, code⟩ ::
        code.instrs.toList.zipIdx.flatMap fun (instr, position) =>
          [instr.first, instr.second].flatMap fun operand =>
            match operand.function? with
            | none => []
            | some ref =>
                match (heap.definition ref).body with
                | .script inner =>
                    heap.listingWithin fuel (path ++ "/" ++ toString position)
                      (some (heap.definition ref)) inner
                | _ => []

/-- All codes reachable from a main code. -/
def listing (heap : Heap) (code : Code) : List ListedCode :=
  heap.listingWithin (heap.functions.size + 1) "main" none code

end Heap

end MiniScript
