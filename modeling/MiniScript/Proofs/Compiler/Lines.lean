import MiniScript.Proofs.Code.SourceMap
import MiniScript.Proofs.Compiler.Bodies

/-!
# Lines of compiled code

Every statement is written in a source bracket with its line, and the statements in
it in brackets of their own. So an instruction stands at the line of the innermost
statement whose code contains it; only the jump over an `else` branch and the
closing of a body stand at no line.
-/

namespace MiniScript

namespace Builder

/-- For every instruction that the steps add, the line of the bracket that is innermost then, where
the brackets that are open have given lines. -/
def lines : List Nat → List Step → List (Option Nat)
  | _, [] => []
  | outer, .emit _ :: rest => outer.head? :: lines outer rest
  | outer, .emitUnmapped _ :: rest => none :: lines outer rest
  | outer, .openSource line :: rest => lines (line :: outer) rest
  | outer, .closeSource :: rest => lines outer.tail rest

theorem lines_eq_map_origins (nesting : Nesting) (steps : List Step) :
    lines (nesting.brackets.map (·.line)) steps =
      (origins nesting steps).map (Option.map (·.line)) := by
  induction steps generalizing nesting with
  | nil => rfl
  | cons step rest ih =>
      cases step with
      | emit instr =>
          rw [lines, origins, List.map_cons, ih, List.head?_map]
      | emitUnmapped instr =>
          rw [lines, origins, List.map_cons, ih]
          rfl
      | openSource line =>
          rw [lines, origins, ← ih]
          rfl
      | closeSource =>
          rw [lines, origins, ← ih, List.map_tail]

theorem obeyAll_steps (builder : Builder) (steps : List Step) :
    builder.obeyAll (steps.map .step) = builder.applyAll steps := by
  rw [obeyAll, List.foldl_map]
  rfl

theorem stepsOf_steps (steps : List Step) : stepsOf (steps.map .step) = steps := by
  rw [stepsOf, List.filterMap_map]
  exact List.filterMap_some

/-- Finished code has the lines that its steps say. -/
theorem lineAt?_of_finish {sourceName : Option String} {steps : List Step} {code : Code}
    (finished : (applyAll { sourceName } steps).finish = .ok code) {position line : Nat}
    (known : (lines [] steps)[position]? = some (some line)) :
    code.lineAt? position = some line := by
  rw [← obeyAll_steps] at finished
  obtain ⟨instrs, -, -, total, covers⟩ := finish_covers finished
  rw [stepsOf_steps] at total covers
  rw [show ([] : List Nat) = ({} : Nesting).brackets.map (·.line) from rfl, lines_eq_map_origins,
    List.getElem?_map, Option.map_eq_some_iff] at known
  obtain ⟨_ | origin, here, same⟩ := known
  · exact nomatch same
  · obtain ⟨entry, -, found, atLine, -⟩ := covers.entryAt?_found total here
    rw [Code.lineAt?, found, Option.map_some, atLine]
    exact same

theorem flush_sourceName (builder : Builder) (bracket : Bracket) :
    (builder.flush bracket).sourceName = builder.sourceName := by
  unfold flush
  split <;> rfl

theorem flushInnermost_sourceName (builder : Builder) :
    builder.flushInnermost.sourceName = builder.sourceName := by
  unfold flushInnermost
  split
  · rfl
  · exact flush_sourceName builder _

theorem restartInnermost_sourceName (builder : Builder) :
    builder.restartInnermost.sourceName = builder.sourceName := by
  unfold restartInnermost
  split <;> rfl

theorem closeSource_sourceName (builder : Builder) :
    builder.closeSource.sourceName = builder.sourceName := by
  unfold closeSource
  split
  · rfl
  · rw [restartInnermost_sourceName]
    exact flush_sourceName builder _

theorem closeAll_sourceName (count : Nat) (builder : Builder) :
    (closeAll count builder).sourceName = builder.sourceName := by
  induction count generalizing builder with
  | zero => rfl
  | succ count ih => exact (ih builder.closeSource).trans (closeSource_sourceName builder)

theorem applyAll_sourceName (builder : Builder) (steps : List Step) :
    (builder.applyAll steps).sourceName = builder.sourceName := by
  induction steps generalizing builder with
  | nil => rfl
  | cons step rest ih =>
      refine (ih (builder.apply step)).trans ?_
      cases step with
      | emit instr => rfl
      | emitUnmapped instr =>
          exact (restartInnermost_sourceName _).trans (flushInnermost_sourceName builder)
      | openSource line => exact flushInnermost_sourceName builder
      | closeSource => exact closeSource_sourceName builder

theorem sourceName_of_finish {sourceName : Option String} {steps : List Step} {code : Code}
    (finished : (applyAll { sourceName } steps).finish = .ok code) :
    code.sourceName = sourceName := by
  rw [(finish_eq_ok finished).2.2, closeAll_sourceName, applyAll_sourceName]

end Builder

namespace Compiler

open Builder

/-- What is found at an offset in a block whose code starts at `start`. -/
def inBlock (start : Nat) (block : Nat → Option Stmt) (offset : Nat) : Option Stmt :=
  if offset < start then none else block (offset - start)

mutual

/-- The innermost of the statements whose code contains the instruction at an offset. -/
def statementAt? : List Stmt → Nat → Option Stmt
  | [], _ => none
  | stmt :: rest, offset =>
      if offset < stmtSize stmt then some ((substatement? stmt offset).getD stmt)
      else statementAt? rest (offset - stmtSize stmt)

/-- The innermost of the statements in the blocks of a statement whose code contains the instruction
at an offset. -/
def substatement? : Stmt → Nat → Option Stmt
  | .ifElse _ _ condition thenBranch none, offset =>
      inBlock (exprSize condition + 1) (statementAt? thenBranch) offset
  | .ifElse _ _ condition thenBranch (some elseBranch), offset =>
      let elseAt := exprSize condition + 1 + stmtsSize thenBranch + 1
      if offset < elseAt then inBlock (exprSize condition + 1) (statementAt? thenBranch) offset
      else inBlock elseAt (statementAt? elseBranch) offset
  | .whileLoop _ _ condition body, offset =>
      inBlock (exprSize condition + 1) (statementAt? body) offset
  | .forLoop _ _ _ iter body, offset => inBlock (exprSize iter + 2) (statementAt? body) offset
  | _, _ => none

end

theorem inBlock_of_lt {start offset : Nat} (before : offset < start) (block : Nat → Option Stmt) :
    inBlock start block offset = none :=
  if_pos before

theorem inBlock_add (start offset : Nat) (block : Nat → Option Stmt) :
    inBlock start block (start + offset) = block offset := by
  rw [inBlock, if_neg (Nat.not_lt.mpr (Nat.le_add_right _ _)), Nat.add_sub_cancel_left]

theorem statementAt?_of_size_le {stmts : List Stmt} {offset : Nat}
    (beyond : stmtsSize stmts ≤ offset) : statementAt? stmts offset = none := by
  induction stmts generalizing offset with
  | nil => rfl
  | cons stmt rest ih =>
      rw [stmtsSize] at beyond
      rw [statementAt?, if_neg (by omega)]
      exact ih (by omega)

/-- The opcodes of the instructions that stand at no line. -/
def Unlined (op : Opcode) : Prop :=
  op = .jump ∨ op = .pushValue ∨ op = .pushScope ∨ op = .return

/-- Every instruction of the steps stands at the line of its owner, or is one that needs no line.
The steps close the brackets that they open. -/
structure Owned (outer : List Nat) (steps : List Step) (owner : Nat → Option Stmt) : Prop where
  balanced : ∀ rest, lines outer (steps ++ rest) = lines outer steps ++ lines outer rest
  lined : ∀ {offset instr}, (instrsOf steps)[offset]? = some instr →
    (∃ stmt, owner offset = some stmt ∧ (lines outer steps)[offset]? = some (some stmt.line)) ∨
      Unlined instr.op

theorem lines_length (outer : List Nat) (steps : List Step) :
    (lines outer steps).length = (instrsOf steps).length := by
  induction steps generalizing outer with
  | nil => rfl
  | cons step rest ih =>
      cases step with
      | emit | emitUnmapped => exact congrArg (· + 1) (ih outer)
      | openSource line => exact ih (line :: outer)
      | closeSource => exact ih outer.tail

theorem lines_emitSteps (outer : List Nat) (instrs : List Instr) (rest : List Step) :
    lines outer (emitSteps instrs ++ rest) =
      List.replicate instrs.length outer.head? ++ lines outer rest := by
  induction instrs with
  | nil => rfl
  | cons instr others ih => exact congrArg (outer.head? :: ·) ih

namespace Owned

variable {outer : List Nat} {steps more : List Step} {owner early late : Nat → Option Stmt}

theorem nil : Owned outer [] owner where
  balanced _ := rfl
  lined here := nomatch here

/-- Instructions in the bracket of a statement. -/
theorem emit {stmt : Stmt} {instrs : List Instr}
    (owned : ∀ offset, offset < instrs.length → owner offset = some stmt) :
    Owned (stmt.line :: outer) (emitSteps instrs) owner where
  balanced rest := by
    have whole := lines_emitSteps (stmt.line :: outer) instrs []
    rw [List.append_nil, lines, List.append_nil] at whole
    rw [lines_emitSteps, whole]
  lined {offset instr} here := by
    rw [instrsOf_emitSteps] at here
    have inside := (List.getElem?_eq_some_iff.mp here).1
    have whole := lines_emitSteps (stmt.line :: outer) instrs []
    rw [List.append_nil, lines, List.append_nil] at whole
    refine Or.inl ⟨stmt, owned offset inside, ?_⟩
    rw [whole, List.getElem?_replicate, if_pos inside]
    rfl

/-- An instruction that needs no line. -/
theorem skip {instr : Instr} (free : Unlined instr.op) :
    Owned outer [.emitUnmapped instr] owner where
  balanced _ := rfl
  lined {offset found} here := by
    cases offset with
    | zero =>
        cases here
        exact Or.inr free
    | succ offset => exact nomatch here

theorem append {size : Nat} (first : Owned outer steps early) (second : Owned outer more late)
    (length : (instrsOf steps).length = size)
    (before : ∀ offset stmt, offset < size → early offset = some stmt → owner offset = some stmt)
    (after : ∀ offset stmt, offset < (instrsOf more).length → late offset = some stmt →
      owner (size + offset) = some stmt) :
    Owned outer (steps ++ more) owner where
  balanced rest := by
    rw [List.append_assoc, first.balanced, second.balanced, first.balanced, List.append_assoc]
  lined {offset instr} here := by
    have same : (lines outer steps).length = size := (lines_length outer steps).trans length
    rw [first.balanced]
    rw [instrsOf_append] at here
    by_cases inside : offset < size
    · rw [List.getElem?_append_left (length.symm ▸ inside)] at here
      rw [List.getElem?_append_left (same.symm ▸ inside)]
      refine (first.lined here).imp_left ?_
      rintro ⟨stmt, owned, line⟩
      exact ⟨stmt, before offset stmt inside owned, line⟩
    · obtain ⟨offset, rfl⟩ := Nat.exists_eq_add_of_le (Nat.le_of_not_lt inside)
      rw [List.getElem?_append_right (length.symm ▸ Nat.le_add_right _ _), length,
        Nat.add_sub_cancel_left] at here
      rw [List.getElem?_append_right (same.symm ▸ Nat.le_add_right _ _), same,
        Nat.add_sub_cancel_left]
      have bounded := (List.getElem?_eq_some_iff.mp here).1
      refine (second.lined here).imp_left ?_
      rintro ⟨stmt, owned, line⟩
      exact ⟨stmt, after offset stmt bounded owned, line⟩

/-- The bracket of a statement around its steps. -/
theorem bracket {line : Nat} (inner : Owned (line :: outer) steps owner) :
    Owned outer ([Step.openSource line] ++ steps ++ [Step.closeSource]) owner := by
  have opened (rest : List Step) :
      lines outer ([Step.openSource line] ++ steps ++ [Step.closeSource] ++ rest) =
        lines (line :: outer) steps ++ lines outer rest := by
    rw [List.append_assoc, List.append_assoc]
    exact inner.balanced ([.closeSource] ++ rest)
  have whole := opened []
  rw [List.append_nil, lines, List.append_nil] at whole
  refine ⟨fun rest => ?_, fun {offset instr} here => ?_⟩
  · rw [opened, whole]
  · rw [whole]
    have same : instrsOf ([.openSource line] ++ steps ++ [.closeSource]) = instrsOf steps := by
      rw [instrsOf_append, instrsOf_append]
      exact List.append_nil _
    rw [same] at here
    exact inner.lined here

end Owned

/-- The innermost statement, in a given one, whose code contains the instruction at an offset. -/
def ownerIn (stmt : Stmt) (offset : Nat) : Option Stmt :=
  some ((substatement? stmt offset).getD stmt)

namespace Owned

variable {outer : List Nat} {stmt : Stmt} {block : Nat → Option Stmt} {front : List Instr}
variable {steps : List Step} {start size : Nat}

/-- A statement without blocks in it. -/
theorem simple (simple : ∀ offset, substatement? stmt offset = none) (instrs : List Instr) :
    Owned (stmt.line :: outer) (emitSteps instrs) (ownerIn stmt) :=
  .emit fun offset _ => by rw [ownerIn, simple, Option.getD_none]

/-- The instructions of a statement before a block in it, and the block. -/
theorem opening (length : front.length = start) (inner : Owned (stmt.line :: outer) steps block)
    (sized : (instrsOf steps).length = size)
    (found : ∀ offset, offset < start + size →
      substatement? stmt offset = inBlock start block offset) :
    Owned (stmt.line :: outer) (emitSteps front ++ steps) (ownerIn stmt) := by
  have own : Owned (stmt.line :: outer) (emitSteps front) (ownerIn stmt) := by
    refine .emit fun offset inside => ?_
    rw [length] at inside
    rw [ownerIn, found offset (Nat.lt_add_right _ inside), inBlock_of_lt inside, Option.getD_none]
  refine own.append inner ((congrArg _ (instrsOf_emitSteps front)).trans length)
    (fun _ _ _ => id) ?_
  intro offset owner inside owned
  rw [sized] at inside
  rw [ownerIn, found _ (Nat.add_lt_add_left inside start), inBlock_add, owned, Option.getD_some]

/-- The instruction of a statement behind the block in it. -/
theorem closing {instr : Instr} (opened : Owned (stmt.line :: outer) steps (ownerIn stmt))
    (length : (instrsOf steps).length = size) (free : substatement? stmt size = none) :
    Owned (stmt.line :: outer) (steps ++ emitSteps [instr]) (ownerIn stmt) := by
  refine opened.append (Owned.emit fun _ _ => rfl) length (fun _ _ _ => id) ?_
  intro offset owner inside owned
  obtain rfl : offset = 0 := Nat.lt_one_iff.mp inside
  rw [ownerIn, Nat.add_zero, free, Option.getD_none]
  exact owned

/-- Another block of a statement, behind an instruction that needs no line. -/
theorem following {more : List Step} {instr : Instr}
    (opened : Owned (stmt.line :: outer) steps (ownerIn stmt))
    (length : (instrsOf steps).length + 1 = start) (free : Unlined instr.op)
    (inner : Owned (stmt.line :: outer) more block)
    (found : ∀ offset, substatement? stmt (start + offset) = block offset) :
    Owned (stmt.line :: outer) (steps ++ [Step.emitUnmapped instr] ++ more) (ownerIn stmt) := by
  have leaps : Owned (stmt.line :: outer) (steps ++ [Step.emitUnmapped instr]) (ownerIn stmt) :=
    opened.append (.skip free) rfl (fun _ _ _ => id) fun _ _ _ => id
  have leapt : (instrsOf (steps ++ [.emitUnmapped instr])).length = start := by
    rw [instrsOf_append, List.length_append, ← length]
    rfl
  refine leaps.append inner leapt (fun _ _ _ => id) fun offset owner _ owned => ?_
  rw [ownerIn, found, owned, Option.getD_some]

end Owned

section

variable {sourceName : Option String}

mutual

theorem layStmt_owned (stmt : Stmt) {outer : List Nat} {position : Nat}
    {loop : Option LoopPlace} {before after : LayState} {steps : List Step}
    (ran : Yields (layStmt sourceName position loop stmt) before steps after) :
    Owned (stmt.line :: outer) steps (ownerIn stmt) := by
  cases stmt with
  | expr id value =>
      simp only [layStmt, yields_bind, yields_pure] at ran
      obtain ⟨code, _, -, rfl, -⟩ := ran
      exact .simple (fun _ => rfl) _
  | assign id target op value =>
      cases target with
      | name ident =>
          cases op with
          | none =>
              simp only [layStmt, yields_bind, yields_pure] at ran
              obtain ⟨code, _, -, rfl, -⟩ := ran
              exact .simple (fun _ => rfl) _
          | some op =>
              simp only [layStmt, yields_bind, yields_pure] at ran
              obtain ⟨code, _, -, rfl, -⟩ := ran
              exact .simple (fun _ => rfl) _
      | member base field id =>
          simp only [layStmt, yields_bind, yields_pure] at ran
          obtain ⟨target, middle, -, code, _, -, rfl, -⟩ := ran
          exact .simple (fun _ => rfl) _
      | index span id base index =>
          simp only [layStmt, yields_bind, yields_pure] at ran
          obtain ⟨target, middle, -, key, next, -, code, _, -, rfl, -⟩ := ran
          exact .simple (fun _ => rfl) _
      | _ => simp only [layStmt, yields_reject] at ran
  | ifElse id span condition thenBranch elseBranch =>
      cases elseBranch with
      | none =>
          simp only [layStmt, yields_bind, yields_pure] at ran
          obtain ⟨test, middle, ranTest, branch, _, ranBranch, rfl, -⟩ := ran
          have length := (layExpr_written condition ranTest).length
          have size := (layStmts_written thenBranch ranBranch).length
          refine .opening ?_ (layStmts_owned thenBranch ranBranch) size fun _ _ => rfl
          rw [List.length_append, length, List.length_singleton]
      | some elseBranch =>
          simp only [layStmt, yields_bind, yields_pure] at ran
          obtain ⟨test, middle, ranTest, branch, next, ranBranch, other, _, ranOther, rfl, -⟩ := ran
          have length := (layExpr_written condition ranTest).length
          have size := (layStmts_written thenBranch ranBranch).length
          have front (address : Nat) :
              (test ++ [jumpTo .jumpIfFalse address]).length = exprSize condition + 1 := by
            rw [List.length_append, length, List.length_singleton]
          have place (address : Nat) :
              (instrsOf (emitSteps (test ++ [jumpTo .jumpIfFalse address]) ++ branch)).length + 1 =
                exprSize condition + 1 + stmtsSize thenBranch + 1 := by
            rw [instrsOf_append, instrsOf_emitSteps, List.length_append, front, size]
          refine (Owned.opening (front _) (layStmts_owned thenBranch ranBranch) size ?_).following
            (place _) (Or.inl rfl) (layStmts_owned elseBranch ranOther) ?_
          · intro offset early
            rw [substatement?, if_pos (Nat.lt_succ_of_lt early)]
          · intro offset
            rw [substatement?, if_neg (Nat.not_lt.mpr (Nat.le_add_right _ _)), inBlock_add]
  | whileLoop id span condition body =>
      simp only [layStmt, yields_bind, yields_pure] at ran
      obtain ⟨test, middle, ranTest, inner, _, ranBody, rfl, -⟩ := ran
      have length := (layExpr_written condition ranTest).length
      have size := (layStmts_written body ranBody).length
      have front (address : Nat) :
          (test ++ [jumpTo .jumpIfFalse address]).length = exprSize condition + 1 := by
        rw [List.length_append, length, List.length_singleton]
      refine (Owned.opening (front _) (layStmts_owned body ranBody) size fun _ _ => rfl).closing
        rfl ?_
      rw [instrsOf_append, instrsOf_emitSteps, List.length_append, front, size]
      exact (inBlock_add _ _ _).trans (statementAt?_of_size_le (Nat.le_refl _))
  | forLoop id span var iter body =>
      simp only [layStmt, yields_bind, yields_takeLoop, yields_pure] at ran
      obtain ⟨_, _, ⟨-, rfl, rfl⟩, source, middle, ranIter, inner, _, ranBody, rfl, -⟩ := ran
      have length := (layExpr_written iter ranIter).length
      have size := (layStmts_written body ranBody).length
      have front (create iterate : Instr) :
          (source ++ [create, iterate]).length = exprSize iter + 2 := by
        rw [List.length_append, length]
        rfl
      refine (Owned.opening (front _ _) (layStmts_owned body ranBody) size
        fun _ _ => rfl).closing rfl ?_
      rw [instrsOf_append, instrsOf_emitSteps, List.length_append, front, size]
      exact (inBlock_add _ _ _).trans (statementAt?_of_size_le (Nat.le_refl _))
  | breakLoop id span =>
      rcases loop with _ | ⟨start, stop⟩ | id
      · simp only [layStmt, yields_reject] at ran
      · simp only [layStmt, yields_pure] at ran
        obtain ⟨rfl, -⟩ := ran
        exact .simple (fun _ => rfl) _
      · simp only [layStmt, yields_pure] at ran
        obtain ⟨rfl, -⟩ := ran
        exact .simple (fun _ => rfl) _
  | continueLoop id span =>
      rcases loop with _ | ⟨start, stop⟩ | id
      · simp only [layStmt, yields_reject] at ran
      · simp only [layStmt, yields_pure] at ran
        obtain ⟨rfl, -⟩ := ran
        exact .simple (fun _ => rfl) _
      · simp only [layStmt, yields_pure] at ran
        obtain ⟨rfl, -⟩ := ran
        exact .simple (fun _ => rfl) _
  | returnValue id span value =>
      simp only [layStmt, yields_bind, yields_pure] at ran
      obtain ⟨code, _, -, rfl, -⟩ := ran
      exact .simple (fun _ => rfl) _

theorem layStmts_owned (stmts : List Stmt) {outer : List Nat} {position : Nat}
    {loop : Option LoopPlace} {before after : LayState} {steps : List Step}
    (ran : Yields (layStmts sourceName position loop stmts) before steps after) :
    Owned outer steps (statementAt? stmts) := by
  cases stmts with
  | nil =>
      simp only [layStmts, yields_pure] at ran
      obtain ⟨rfl, -⟩ := ran
      exact .nil
  | cons stmt rest =>
      simp only [layStmts, yields_bind, yields_pure] at ran
      obtain ⟨first, middle, ranStmt, more, _, ranRest, rfl, -⟩ := ran
      have size : (instrsOf ([.openSource stmt.line] ++ first ++ [.closeSource])).length =
          stmtSize stmt := by
        rw [← (layStmt_written stmt ranStmt).length, instrsOf_append, instrsOf_append]
        exact congrArg List.length (List.append_nil _)
      refine (layStmt_owned stmt ranStmt).bracket.append (layStmts_owned rest ranRest)
        size ?_ ?_
      · intro offset found inside owned
        rw [statementAt?, if_pos inside]
        exact owned
      · intro offset found _ owned
        rw [statementAt?, if_neg (Nat.not_lt.mpr (Nat.le_add_right _ _)), Nat.add_sub_cancel_left]
        exact owned

end

end

theorem closing_unlined (kind : BodyKind) : ∀ instr ∈ Compiler.closing kind, Unlined instr.op := by
  cases kind with
  | program => exact fun _ member => nomatch member
  | function =>
      exact List.forall_mem_cons.mpr ⟨Or.inr (Or.inl rfl),
        List.forall_mem_singleton.mpr (Or.inr (Or.inr (Or.inr rfl)))⟩
  | module =>
      exact List.forall_mem_cons.mpr ⟨Or.inr (Or.inr (Or.inl rfl)),
        List.forall_mem_singleton.mpr (Or.inr (Or.inr (Or.inr rfl)))⟩

/-- The line of the first statement; one if there is none. -/
def firstLine : List Stmt → Nat
  | [] => 1
  | stmt :: _ => stmt.line

/-- The code that calls the body of a module is assembled in one bracket. -/
theorem compileModule_steps {sourceName : Option String} {module : String} {stmts : List Stmt}
    {functions result : Array Definition} {code : Code}
    (compiled : compileModule sourceName module stmts functions = .ok (code, result)) :
    ∃ ref, (Builder.applyAll { sourceName }
      [.openSource (firstLine stmts), .emit { op := .pushFunction, first := .func ref },
        .emit (withCount .callValue 0), .emit { op := .assignVar, first := .name module },
        .closeSource]).finish = .ok code := by
  unfold compileModule at compiled
  cases ran : compileBody sourceName .module stmts functions with
  | error error =>
      rw [ran] at compiled
      cases compiled
  | ok pair =>
      obtain ⟨body, inner⟩ := pair
      simp only [ran, Bind.bind, Except.bind] at compiled
      split at compiled
      · cases compiled
      · rename_i code finished
        cases compiled
        refine ⟨⟨inner.size⟩, ?_⟩
        cases stmts with
        | nil => exact finished
        | cons stmt rest => exact finished

end Compiler

open Compiler

namespace Code

variable {sourceName : Option String} {stmts : List Stmt} {functions result : Array Definition}
variable {code : Code} {position : Nat}

/-- An instruction of a body stands at the line of the innermost statement whose code contains it,
or needs no line. -/
theorem lineAt?_of_body {kind : BodyKind}
    (compiled : compileBody sourceName kind stmts functions = .ok (code, result)) {instr : Instr}
    (here : code.instrs[position]? = some instr) :
    (∃ stmt, statementAt? stmts position = some stmt ∧ code.lineAt? position = some stmt.line) ∨
      Unlined instr.op := by
  obtain ⟨steps, state, ran, assembled, -⟩ := compileBody_eq_ok_iff.mp compiled
  obtain ⟨again, _, ranAgain, instrs, -⟩ := compileBody_steps compiled
  cases ran.symm.trans ranAgain
  have owned : Owned [] steps (statementAt? stmts) := layStmts_owned stmts ran
  rw [← Array.getElem?_toList, instrs] at here
  by_cases inside : position < (Builder.instrsOf steps).length
  · rw [List.getElem?_append_left inside] at here
    refine (owned.lined here).imp_left ?_
    rintro ⟨stmt, owner, line⟩
    refine ⟨stmt, owner, Builder.lineAt?_of_finish assembled ?_⟩
    rw [owned.balanced, List.getElem?_append_left ((lines_length [] steps).symm ▸ inside)]
    exact line
  · rw [List.getElem?_append_right (Nat.le_of_not_lt inside)] at here
    have member := List.mem_of_getElem? here
    split at member
    · exact nomatch member
    · exact Or.inr (closing_unlined kind instr member)

theorem sourceName_of_body {kind : BodyKind}
    (compiled : compileBody sourceName kind stmts functions = .ok (code, result)) :
    code.sourceName = sourceName := by
  obtain ⟨steps, state, -, assembled, -⟩ := compileBody_eq_ok_iff.mp compiled
  exact Builder.sourceName_of_finish assembled

/-- All instructions that call the body of a module stand at the line of its first statement. -/
theorem lineAt?_of_module {module : String}
    (compiled : compileModule sourceName module stmts functions = .ok (code, result))
    {instr : Instr}
    (here : code.instrs[position]? = some instr) :
    code.lineAt? position = some (firstLine stmts) := by
  obtain ⟨ref, finished⟩ := compileModule_steps compiled
  have ops := (Builder.finish_eq_ok finished).2.1
  have size : code.instrs.toList.length = 3 := by
    have lengths := congrArg List.length ops
    rw [List.length_map, List.length_map, Builder.applyAll_instrs] at lengths
    exact lengths
  have inside : position < 3 := by
    rw [← size]
    exact (Array.getElem?_eq_some_iff.mp here).1
  refine Builder.lineAt?_of_finish finished ?_
  match position, inside with
  | 0, _ | 1, _ | 2, _ => rfl

theorem sourceName_of_module {module : String}
    (compiled : compileModule sourceName module stmts functions = .ok (code, result)) :
    code.sourceName = sourceName := by
  obtain ⟨ref, finished⟩ := compileModule_steps compiled
  exact Builder.sourceName_of_finish finished

end Code

end MiniScript
