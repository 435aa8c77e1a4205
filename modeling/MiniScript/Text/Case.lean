import MiniScript.Text.CaseTables

/-!
# Upper and lower case

Case changes character by character, one character possibly becoming several.
The one rule that looks around is that of the capital sigma, which becomes a
final sigma at the end of a word.
-/

namespace MiniScript.Text

def CaseRun.image (run : CaseRun) (code : Nat) : Option Nat :=
  if run.first ≤ code && code ≤ run.last && (code - run.first) % run.stride == 0 then
    some (Int.ofNat code + run.shift).toNat
  else none

/-- The images of one character under runs and expansions; itself when neither knows it. -/
def changeCase (runs : List CaseRun) (expansions : List (Nat × List Nat)) (char : Char) :
    List Char :=
  match expansions.find? fun entry => entry.1 == char.toNat with
  | some (_, codes) => codes.map Char.ofNat
  | none =>
      match runs.findSome? fun run => run.image char.toNat with
      | some code => [Char.ofNat code]
      | none => [char]

def upperChar : Char → List Char :=
  changeCase upperRuns upperExpansions

def lowerChar : Char → List Char :=
  changeCase lowerRuns lowerExpansions

def isCased (char : Char) : Bool :=
  covers casedRanges char.toNat

def isCaseIgnorable (char : Char) : Bool :=
  covers caseIgnorableRanges char.toNat

/-- Whether the first character that case does not ignore is a cased one. -/
def startsCased (chars : List Char) : Bool :=
  match chars.dropWhile isCaseIgnorable with
  | [] => false
  | char :: _ => isCased char

def upper (chars : List Char) : List Char :=
  chars.flatMap upperChar

/-- Lower case of `chars`, given the characters before them in reverse order. -/
def lowerAfter : List Char → List Char → List Char
  | _, [] => []
  | before, char :: rest =>
      let image :=
        if char = 'Σ' then
          if startsCased before && !startsCased rest then ['ς'] else ['σ']
        else lowerChar char
      image ++ lowerAfter (char :: before) rest

def lower (chars : List Char) : List Char :=
  lowerAfter [] chars

end MiniScript.Text
