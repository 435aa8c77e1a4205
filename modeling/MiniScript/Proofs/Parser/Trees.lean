import MiniScript.Proofs.Compiler.Faults
import MiniScript.Proofs.Parser.Task

/-!
# Trees that the parser builds

The parser checks what is assigned to and which defaults are given, and it puts the
operators of a chain between its operands. So a tree that has been read can have no
fault but a `break` or `continue` outside of a loop and a reference to the result of
a call.
-/

namespace MiniScript

open Compiler

/-- The faults that a tree can have although it has been read from tokens. -/
def CompileFault.survivesReading : CompileFault → Bool
  | .breakOutsideLoop | .continueOutsideLoop | .referenceToCall => true
  | _ => false

namespace Parser

variable {α β : Type}

/-- Nothing is wrong with the tree that the parser could have seen. -/
def Tidy (node : Node) : Prop :=
  ∀ fault, node.Has fault → fault.survivesReading = true

theorem Tidy.of {node : Node} (own : ∀ fault ∈ node.faults, fault.survivesReading = true)
    (parts : ∀ part ∈ node.parts, Tidy part) : Tidy node := by
  intro fault found
  rcases Node.has_iff.mp found with found | ⟨part, here, found⟩
  · exact own fault found
  · exact parts part here fault found

/-- An expression with nothing wrong in itself is as tidy as its operands. -/
theorem Tidy.ofOperands {expr : Expr}
    (own : ∀ fault ∈ (Node.expr expr).faults, fault.survivesReading = true)
    (noBody : Node.bodyOf expr = none)
    (operands : ∀ operand ∈ Node.operands expr, Tidy (.expr operand)) : Tidy (.expr expr) := by
  refine .of own ?_
  rw [Node.parts, noBody]
  simpa using operands

/-- A statement is tidy wherever it stands. -/
def TidyStmt (stmt : Stmt) : Prop :=
  ∀ inLoop, Tidy (.stmt inLoop stmt)

/-- A default is a literal. -/
def TidyParam (param : Param) : Prop :=
  ∀ default ∈ param.default?, isLiteral default = true

theorem literalValue?_of_isLiteral {expr : Expr} (literal : isLiteral expr = true) :
    (literalValue? expr).isSome = true := by
  cases expr with
  | number | text | bool | null => rfl
  | _ => exact nomatch literal

/-- The result of a task is tidy. -/
def Category.Tidies : (category : Category) → category.Tree → Prop
  | .expr, value => Tidy (.expr value)
  | .exprs, items => ∀ item ∈ items, Tidy (.expr item)
  | .bound, value => ∀ bound ∈ value, Tidy (.expr bound)
  | .entries, value => ∀ entry ∈ value, Tidy (.expr entry.1) ∧ Tidy (.expr entry.2)
  | .params, value => ∀ param ∈ value, TidyParam param
  | .stmt, value => TidyStmt value
  | .stmts, value => ∀ stmt ∈ value, TidyStmt stmt

namespace Task

/-- The trees that a task starts from are tidy, and a chain has as many operands after the first as
operators. -/
def Given : {category : Category} → Task category → Prop
  | _, .binaryRest left _ => Tidy (.expr left)
  | _, .chain first rest ops _ _ =>
      Tidy (.expr first) ∧ (∀ item ∈ rest, Tidy (.expr item)) ∧ rest.length = ops.length
  | _, .powerRest base => Tidy (.expr base)
  | _, .suffixes base => Tidy (.expr base)
  | _, .items _ gathered => ∀ item ∈ gathered, Tidy (.expr item)
  | _, .indexOrSlice base => Tidy (.expr base)
  | _, .entries gathered =>
      ∀ entry ∈ gathered, Tidy (.expr entry.1) ∧ Tidy (.expr entry.2)
  | _, .params gathered => ∀ param ∈ gathered, TidyParam param
  | _, .block gathered => ∀ stmt ∈ gathered, TidyStmt stmt
  | _, .ifBlock _ condition => Tidy (.expr condition)
  | _, .arguments gathered => ∀ item ∈ gathered, Tidy (.expr item)
  | _, .statements gathered => ∀ stmt ∈ gathered, TidyStmt stmt
  | _, _ => True

/-- What a task gives: a default is a literal, everything else is tidy. -/
def Result : {category : Category} → Task category → category.Tree → Prop
  | _, .default _ => fun bound => ∀ expr ∈ bound, isLiteral expr = true
  | category, _ => category.Tidies

end Task

/-- Every result of the parser is good. -/
def Gives (good : α → Prop) (parser : Parser α) : Prop :=
  ∀ state value after, parser state = .ok value after → good value

namespace Gives

variable {good : α → Prop} {better : β → Prop} {parser : Parser α} {next : α → Parser β}

theorem bind (first : Gives good parser) (rest : ∀ value, good value → Gives better (next value)) :
    Gives better (parser >>= next) := by
  intro state result last ran
  obtain ⟨value, between, begun, ran⟩ := bind_inv ran
  exact rest value (first state value between begun) between result last ran

/-- What comes before does not matter. -/
theorem skip (rest : ∀ value, Gives better (next value)) : Gives better (parser >>= next) :=
  bind (fun _ _ _ _ => trivial : Gives (fun _ => True) parser) fun value _ => rest value

theorem ofPure {value : α} (holds : good value) : Gives good (pure value : Parser α) := by
  rintro state _ after ⟨⟩
  exact holds

theorem fail (error : ParseError) : Gives good (Parser.fail error : Parser α) := by
  rintro state value after ⟨⟩

theorem unexpected (expected : String) : Gives good (Parser.unexpected expected : Parser α) :=
  fun _ _ _ ran => absurd ran unexpected_ne_ok

end Gives

theorem unaryNode_tidy (op : UnaryOp) (span : Span) {operand : Expr}
    (tidy : Tidy (.expr operand)) :
    Gives (fun expr => Tidy (.expr expr)) (unaryNode op span operand) := by
  unfold unaryNode
  split
  · exact .ofPure (.ofOperands nofun rfl nofun)
  · exact .skip fun id => .ofPure (.ofOperands nofun rfl (List.forall_mem_singleton.mpr tidy))

theorem chainNode_tidy {first : Expr} {rest : List Expr} {ops : List (BinaryOp × Span)}
    (head : Tidy (.expr first)) (tail : ∀ item ∈ rest, Tidy (.expr item))
    (same : rest.length = ops.length) :
    Gives (fun expr => Tidy (.expr expr)) (chainNode first rest ops) := by
  unfold chainNode
  refine .skip fun id => ?_
  split
  · refine .ofPure (.ofOperands (fun _ none => absurd none List.not_mem_nil) rfl ?_)
    exact List.forall_mem_cons.mpr ⟨head, tail⟩
  · refine .ofPure (.ofOperands ?_ rfl (List.forall_mem_cons.mpr ⟨head, tail⟩))
    rw [Node.faults, if_pos same]
    exact fun _ none => absurd none List.not_mem_nil

theorem tidy_function {span : Span} {id : NodeId} {params : List Param} {stmts : List Stmt}
    (tidyParams : ∀ param ∈ params, TidyParam param) (tidyBody : ∀ stmt ∈ stmts, TidyStmt stmt) :
    Tidy (.expr (.function span id params stmts)) := by
  intro fault found
  rcases Node.has_function.mp found with (found | ⟨default, given, found⟩) | found
  · obtain ⟨⟨id, ident, _ | default⟩, member, found⟩ := List.mem_flatMap.mp found
    · cases found
    · have literal := literalValue?_of_isLiteral (tidyParams _ member default rfl)
      rw [Param.faults, if_pos literal] at found
      cases found
  · obtain ⟨param, member, given⟩ := List.mem_filterMap.mp given
    have literal := literalValue?_of_isLiteral (tidyParams param member default given)
    exact absurd found (Node.not_has_of_literal literal fault)
  · obtain ⟨stmt, member, found⟩ := Node.has_body.mp found
    exact tidyBody stmt member false fault found

section

variable {id : NodeId} {span : Span} {condition iter value : Expr} {stmts : List Stmt}

theorem tidyStmt_expr (tidy : Tidy (.expr value)) : TidyStmt (.expr id value) := by
  intro inLoop
  refine .of ?_ (List.forall_mem_singleton.mpr tidy)
  simp [Node.faults]

theorem tidyStmt_assign {target : Expr} {op : Option BinaryOp} (isTarget : isTarget target = true)
    (tidyTarget : Tidy (.expr target)) (tidy : Tidy (.expr value)) :
    TidyStmt (.assign id target op value) := by
  intro inLoop
  refine .of ?_ (List.forall_mem_cons.mpr ⟨tidyTarget, List.forall_mem_singleton.mpr tidy⟩)
  simp [Node.faults, isTarget]

theorem tidyStmt_ifElse {elseBranch : Option (List Stmt)} (tidy : Tidy (.expr condition))
    (thenTidy : ∀ stmt ∈ stmts, TidyStmt stmt)
    (elseTidy : ∀ stmt ∈ elseBranch.getD [], TidyStmt stmt) :
    TidyStmt (.ifElse id span condition stmts elseBranch) := by
  intro inLoop
  refine .of ?_ (List.forall_mem_cons.mpr ⟨tidy, List.forall_mem_map.mpr ?_⟩)
  · simp [Node.faults]
  · intro stmt member
    rcases List.mem_append.mp member with member | member
    · exact thenTidy stmt member inLoop
    · exact elseTidy stmt member inLoop

theorem tidyStmt_while (tidy : Tidy (.expr condition)) (bodyTidy : ∀ stmt ∈ stmts, TidyStmt stmt) :
    TidyStmt (.whileLoop id span condition stmts) := by
  intro inLoop
  refine .of ?_ (List.forall_mem_cons.mpr ⟨tidy, List.forall_mem_map.mpr fun stmt member =>
    bodyTidy stmt member true⟩)
  simp [Node.faults]

theorem tidyStmt_for {var : Ident} (tidy : Tidy (.expr iter))
    (bodyTidy : ∀ stmt ∈ stmts, TidyStmt stmt) : TidyStmt (.forLoop id span var iter stmts) := by
  intro inLoop
  refine .of ?_ (List.forall_mem_cons.mpr ⟨tidy, List.forall_mem_map.mpr fun stmt member =>
    bodyTidy stmt member true⟩)
  simp [Node.faults]

theorem tidyStmt_break : TidyStmt (.breakLoop id span) := by
  intro inLoop
  refine .of ?_ nofun
  cases inLoop <;> simp [Node.faults, CompileFault.survivesReading]

theorem tidyStmt_continue : TidyStmt (.continueLoop id span) := by
  intro inLoop
  refine .of ?_ nofun
  cases inLoop <;> simp [Node.faults, CompileFault.survivesReading]

theorem tidyStmt_return {result : Option Expr} (tidy : ∀ value ∈ result, Tidy (.expr value)) :
    TidyStmt (.returnValue id span result) := by
  intro inLoop
  refine .of ?_
    (List.forall_mem_map.mpr fun value member => tidy value (Option.mem_toList.mp member))
  simp [Node.faults]

end

namespace Task

theorem gives {fuel : Nat} : ∀ {category : Category} (task : Task category), task.Given →
    Gives task.Result (task.run fuel) := by
  induction fuel with
  | zero =>
      intro category task given
      rw [task.run_zero]
      rintro state value after ⟨⟩
  | succ fuel ih =>
      intro category task given
      cases task with
      | expr =>
          simp only [Task.run, parseExpr]
          exact (ih .unary trivial).bind fun left tidy => ih (.binaryRest left orLevel) tidy
      | binaryRest left level =>
          simp only [Task.run, parseBinaryRest]
          refine .skip fun found => ?_
          split
          · exact .ofPure given
          · rename_i strength operator _
            split
            · exact .ofPure given
            · refine .skip fun opSpan => ?_
              have operand := ih (.rightOperand (strength + 1)) (by trivial)
              have pair {right : Expr} (tidy : Tidy (.expr right)) :
                  ∀ operand ∈ [left, right], Tidy (.expr operand) :=
                List.forall_mem_cons.mpr ⟨given, List.forall_mem_singleton.mpr tidy⟩
              cases operator with
              | logic op =>
                  exact operand.bind fun right tidy =>
                    .skip fun id => ih (.binaryRest (.logic left op opSpan id right) level)
                      (.ofOperands nofun rfl (pair tidy))
              | binary op =>
                  dsimp only
                  split
                  · exact (ih (.chain left [] [] op opSpan) ⟨given, nofun, rfl⟩).bind
                      fun chain tidy => ih (.binaryRest chain level) tidy
                  · exact operand.bind fun right tidy =>
                      .skip fun id => ih (.binaryRest (.binary left op opSpan id right) level)
                        (.ofOperands nofun rfl (pair tidy))
      | rightOperand level =>
          simp only [Task.run, parseRightOperand]
          exact .skip fun _ => .skip fun _ => (ih .unary trivial).bind fun operand tidy =>
            ih (.binaryRest operand level) tidy
      | chain first rest ops op opSpan =>
          obtain ⟨head, tail, same⟩ := given
          simp only [Task.run, parseChain]
          refine (ih (.rightOperand sumLevel) trivial).bind fun operand tidy =>
            .skip fun found => ?_
          have more := List.forall_mem_cons.mpr ⟨tidy, tail⟩
          split
          · rename_i next _
            exact .skip fun nextSpan =>
              ih (.chain first (operand :: rest) ((op, opSpan) :: ops) next nextSpan)
                ⟨head, more, congrArg (· + 1) same⟩
          · refine chainNode_tidy head
              (fun item member => more item (List.mem_reverse.mp member)) ?_
            simp [same]
      | unary =>
          simp only [Task.run, parseUnary]
          refine .skip fun opSpan => .skip fun found => ?_
          split
          · exact .skip fun _ => (ih .unary trivial).bind fun operand tidy =>
              (ih (.binaryRest operand comparisonLevel) tidy).bind fun _ tidy =>
                unaryNode_tidy _ _ tidy
          · exact .skip fun _ => (ih .unary trivial).bind fun _ tidy => unaryNode_tidy _ _ tidy
          · exact .skip fun _ => (ih .unary trivial).bind fun _ tidy => unaryNode_tidy _ _ tidy
          · exact ih .power trivial
      | power =>
          simp only [Task.run, parsePower]
          refine .skip fun _ => ?_
          split
          · refine .skip fun atSpan => .skip fun _ => (ih .postfixed trivial).bind
              fun inner tidy => .skip fun id =>
                ih (.powerRest (.reference (atSpan.union inner.span) id inner)) ?_
            intro fault found
            rcases Node.has_reference.mp found with found | ⟨_, rfl⟩
            · exact tidy fault found
            · rfl
          · exact (ih .postfixed trivial).bind fun base tidy => ih (.powerRest base) tidy
      | powerRest base =>
          simp only [Task.run, parsePowerRest]
          refine .skip fun _ => ?_
          split
          · exact .skip fun _ => .skip fun _ => .skip fun _ => (ih .unary trivial).bind
              fun _ tidy => .skip fun _ => .ofPure (.ofOperands nofun rfl
                (List.forall_mem_cons.mpr ⟨given, List.forall_mem_singleton.mpr tidy⟩))
          · exact .ofPure given
      | postfixed =>
          simp only [Task.run, parsePostfix]
          exact (ih .primary trivial).bind fun primary tidy => ih (.suffixes primary) tidy
      | suffixes base =>
          simp only [Task.run, parseSuffixes]
          refine .skip fun token => ?_
          split
          · exact .skip fun _ => .skip fun field => .skip fun id =>
              ih (.suffixes (.member base field id))
                (.ofOperands nofun rfl (List.forall_mem_singleton.mpr given))
          · split
            · exact .ofPure given
            · exact (ih (.indexOrSlice base) given).bind fun suffixed tidy =>
                ih (.suffixes suffixed) tidy
          · split
            · exact .ofPure given
            · exact .skip fun _ => .skip fun _ => (ih (.items .rightParen []) nofun).bind
                fun args tidy => .skip fun _ => .skip fun close => .skip fun id =>
                  ih (.suffixes (.call (base.span.union close) id base args))
                    (.ofOperands nofun rfl (List.forall_mem_cons.mpr ⟨given, tidy⟩))
          · exact .ofPure given
      | items close gathered =>
          simp only [Task.run, parseItems]
          refine .skip fun _ => ?_
          split
          · exact .ofPure fun item member => given item (List.mem_reverse.mp member)
          · exact (ih .expr trivial).bind fun item tidy => .skip fun _ =>
              ih (.items close (item :: gathered)) (List.forall_mem_cons.mpr ⟨tidy, given⟩)
      | optional stop =>
          simp only [Task.run, parseUnless]
          refine .skip fun _ => ?_
          split
          · exact .ofPure nofun
          · refine (ih .expr trivial).bind fun value tidy => .ofPure ?_
            rintro _ ⟨⟩
            exact tidy
      | indexOrSlice base =>
          simp only [Task.run, parseIndexOrSlice]
          refine .skip fun _ => .skip fun _ => .skip fun _ =>
            (ih (.optional .colon) trivial).bind fun first tidyFirst => .skip fun _ => ?_
          split
          · refine .skip fun _ => (ih (.optional .rightBracket) trivial).bind fun last tidyLast =>
              .skip fun _ => .skip fun _ => .skip fun _ => .ofPure (.ofOperands nofun rfl ?_)
            refine List.forall_mem_cons.mpr ⟨given, List.forall_mem_append.mpr ⟨?_, ?_⟩⟩
            · exact fun bound member => tidyFirst bound (Option.mem_toList.mp member)
            · exact fun bound member => tidyLast bound (Option.mem_toList.mp member)
          · refine .skip fun _ => .skip fun _ => ?_
            split
            · exact .unexpected _
            · rename_i index
              exact .skip fun _ => .ofPure (.ofOperands nofun rfl (List.forall_mem_cons.mpr
                ⟨given, List.forall_mem_singleton.mpr (tidyFirst index rfl)⟩))
      | primary =>
          simp only [Task.run, parsePrimary]
          refine .skip fun _ => .skip fun found => ?_
          split
          · exact .skip fun _ => .skip fun _ => .ofPure (.ofOperands nofun rfl nofun)
          · exact .skip fun _ => .skip fun _ => .ofPure (.ofOperands nofun rfl nofun)
          · exact .skip fun _ => .skip fun _ => .ofPure (.ofOperands nofun rfl nofun)
          · split
            · exact .skip fun _ => .skip fun _ => .ofPure (.ofOperands nofun rfl nofun)
            · exact .skip fun _ => .skip fun _ => .ofPure (.ofOperands nofun rfl nofun)
            · exact .skip fun _ => .skip fun _ => .ofPure (.ofOperands nofun rfl nofun)
            · exact .skip fun _ => .skip fun _ => .ofPure (.ofOperands nofun rfl nofun)
            · exact .skip fun _ => .skip fun _ => .ofPure (.ofOperands nofun rfl nofun)
            · exact ih .function trivial
            · exact .unexpected _
          · split
            · exact .skip fun _ => .skip fun _ => (ih .expr trivial).bind fun _ tidy =>
                .skip fun _ => .skip fun _ => .skip fun _ =>
                  .ofPure (.ofOperands nofun rfl (List.forall_mem_singleton.mpr tidy))
            · exact .skip fun _ => .skip fun _ => (ih (.items .rightBracket []) nofun).bind
                fun _ tidy => .skip fun _ => .skip fun _ => .skip fun _ =>
                  .ofPure (.ofOperands nofun rfl tidy)
            · refine .skip fun _ => .skip fun _ => (ih (.entries []) nofun).bind
                fun entries tidy => .skip fun _ => .skip fun _ => .skip fun _ =>
                  .ofPure (.ofOperands nofun rfl fun operand member => ?_)
              obtain ⟨entry, here, which⟩ := List.mem_flatMap.mp member
              rcases List.mem_cons.mp which with rfl | which
              · exact (tidy entry here).1
              · rw [List.mem_singleton.mp which]
                exact (tidy entry here).2
            · exact .unexpected _
          · exact .unexpected _
      | entries gathered =>
          simp only [Task.run, parseEntries]
          refine .skip fun _ => ?_
          split
          · exact .ofPure fun entry member => given entry (List.mem_reverse.mp member)
          · refine (ih .expr trivial).bind fun key tidyKey => .skip fun _ => ?_
            split
            · exact .skip fun _ => (ih .expr trivial).bind fun value tidyValue => .skip fun _ =>
                ih (.entries ((key, value) :: gathered))
                  (List.forall_mem_cons.mpr ⟨⟨tidyKey, tidyValue⟩, given⟩)
            · exact .skip fun _ => .unexpected _
      | function =>
          simp only [Task.run, parseFunction]
          exact .skip fun _ => .skip fun _ => .skip fun _ => .skip fun _ =>
            (ih .paramList trivial).bind fun _ tidyParams => (ih (.block []) nofun).bind
              fun _ tidyBody => .skip fun _ => .skip fun _ => .skip fun _ => .skip fun _ =>
                .skip fun _ => .ofPure (tidy_function tidyParams tidyBody)
      | paramList =>
          simp only [Task.run, parseParamList]
          refine .skip fun _ => ?_
          split
          · exact .skip fun _ => .skip fun _ => (ih (.params []) nofun).bind fun _ tidy =>
              .skip fun _ => .skip fun _ => .ofPure tidy
          · exact .ofPure nofun
      | params gathered =>
          simp only [Task.run, parseParams]
          refine .skip fun _ => ?_
          split
          · exact .ofPure fun param member => given param (List.mem_reverse.mp member)
          · exact .skip fun name => (ih (.default name.name) trivial).bind fun default literal =>
              .skip fun id => .skip fun _ => ih (.params (.mk id name default :: gathered))
                (List.forall_mem_cons.mpr ⟨literal, given⟩)
      | default param =>
          simp only [Task.run, parseDefault]
          refine .skip fun _ => ?_
          split
          · refine .skip fun _ => .skip fun value => ?_
            split
            · rename_i literal
              refine .ofPure ?_
              rintro _ ⟨⟩
              exact literal
            · exact .skip fun _ => .fail _
          · exact .ofPure nofun
      | block gathered =>
          simp only [Task.run, parseBlock]
          refine .skip fun _ => .skip fun found => ?_
          split
          · exact .ofPure fun stmt member => given stmt (List.mem_reverse.mp member)
          · exact .ofPure fun stmt member => given stmt (List.mem_reverse.mp member)
          · exact .unexpected _
          · exact (ih .stmt trivial).bind fun stmt tidy => .skip fun _ =>
              ih (.block (stmt :: gathered)) (List.forall_mem_cons.mpr ⟨tidy, given⟩)
      | stmt =>
          simp only [Task.run, parseStmt]
          refine .skip fun _ => .skip fun found => ?_
          split
          · exact ih .conditional trivial
          · exact .skip fun _ => (ih .expr trivial).bind fun _ tidy => (ih (.block []) nofun).bind
              fun _ tidyBody => .skip fun _ => .skip fun _ => .ofPure (tidyStmt_while tidy tidyBody)
          · exact .skip fun _ => .skip fun _ => .skip fun _ => (ih .expr trivial).bind fun _ tidy =>
              (ih (.block []) nofun).bind fun _ tidyBody => .skip fun _ => .skip fun _ =>
                .ofPure (tidyStmt_for tidy tidyBody)
          · exact .skip fun _ => .skip fun _ => .skip fun _ => .ofPure tidyStmt_break
          · exact .skip fun _ => .skip fun _ => .skip fun _ => .ofPure tidyStmt_continue
          · refine .skip fun _ => .skip fun _ => .skip fun _ => ?_
            split
            · exact .skip fun _ => .ofPure (tidyStmt_return nofun)
            · refine (ih .expr trivial).bind fun value tidy => .skip fun _ =>
                .ofPure (tidyStmt_return ?_)
              rintro _ ⟨⟩
              exact tidy
          · exact ih .simple trivial
      | conditional =>
          simp only [Task.run, parseIf]
          refine .skip fun start => (ih .expr trivial).bind fun condition tidy => .skip fun _ =>
            .skip fun found => ?_
          split
          · exact ih (.ifBlock start condition) tidy
          · exact ih (.ifBlock start condition) tidy
          · refine (ih .stmt trivial).bind fun thenStmt tidyThen => .skip fun _ => ?_
            have thenTidy := List.forall_mem_singleton.mpr tidyThen
            split
            · exact .skip fun _ => (ih .stmt trivial).bind fun elseStmt tidyElse => .skip fun _ =>
                .ofPure (tidyStmt_ifElse tidy thenTidy (List.forall_mem_singleton.mpr tidyElse))
            · exact .skip fun _ => .ofPure (tidyStmt_ifElse tidy thenTidy nofun)
      | ifBlock start condition =>
          simp only [Task.run, parseIfBlock]
          refine (ih (.block []) nofun).bind fun thenBranch thenTidy => .skip fun _ => ?_
          split
          · refine .skip fun _ => .skip fun _ => ?_
            split
            · exact .skip fun nestedStart => .skip fun _ => (ih .expr trivial).bind
                fun nestedCondition tidy => .skip fun _ =>
                  (ih (.ifBlock nestedStart nestedCondition) tidy).bind fun nested tidyNested =>
                    .skip fun _ => .ofPure (tidyStmt_ifElse given thenTidy
                      (List.forall_mem_singleton.mpr tidyNested))
            · exact (ih (.block []) nofun).bind fun _ elseTidy => .skip fun _ => .skip fun _ =>
                .ofPure (tidyStmt_ifElse given thenTidy elseTidy)
          · exact .skip fun _ => .skip fun _ => .ofPure (tidyStmt_ifElse given thenTidy nofun)
      | simple =>
          simp only [Task.run, parseSimple]
          refine .skip fun found => ?_
          split
          · exact ih .fromTarget trivial
          · exact ih .fromTarget trivial
          · exact ih .fromTarget trivial
          · exact (ih .expr trivial).bind fun _ tidy => .skip fun _ => .ofPure (tidyStmt_expr tidy)
      | fromTarget =>
          simp only [Task.run, parseFromTarget]
          refine (ih .postfixed trivial).bind fun target tidyTarget => .skip fun found => ?_
          split
          · split
            · rename_i isTarget
              exact .skip fun _ => .skip fun _ => (ih .expr trivial).bind fun _ tidy =>
                .skip fun _ => .ofPure (tidyStmt_assign isTarget tidyTarget tidy)
            · exact .fail _
          · refine .skip fun _ => .skip fun _ => ?_
            split
            · refine (ih .expr trivial).bind fun first tidyFirst =>
                (ih (.arguments [first]) (List.forall_mem_singleton.mpr tidyFirst)).bind
                  fun args tidyArgs => .skip fun _ => .skip fun _ => .ofPure (tidyStmt_expr ?_)
              exact .ofOperands nofun rfl (List.forall_mem_cons.mpr ⟨tidyTarget, tidyArgs⟩)
            · exact (ih (.powerRest target) tidyTarget).bind fun base tidyBase =>
                (ih (.binaryRest base orLevel) tidyBase).bind fun _ tidy => .skip fun _ =>
                  .ofPure (tidyStmt_expr tidy)
      | arguments gathered =>
          simp only [Task.run, parseArguments]
          refine .skip fun _ => ?_
          split
          · exact .skip fun _ => .skip fun _ => (ih .expr trivial).bind fun arg tidy =>
              ih (.arguments (arg :: gathered)) (List.forall_mem_cons.mpr ⟨tidy, given⟩)
          · exact .ofPure fun item member => given item (List.mem_reverse.mp member)
      | statements gathered =>
          simp only [Task.run, parseStatements]
          refine .skip fun _ => .skip fun found => ?_
          split
          · exact .ofPure fun stmt member => given stmt (List.mem_reverse.mp member)
          · exact .unexpected _
          · exact .unexpected _
          · exact (ih .stmt trivial).bind fun stmt tidy => .skip fun _ =>
              ih (.statements (stmt :: gathered)) (List.forall_mem_cons.mpr ⟨tidy, given⟩)

end Task

end Parser

/-- A tree that has been read has none of the faults that the parser looks for. -/
theorem Program.survivesReading_of_ofTokens {tokens : List Token} {stmts : List Stmt}
    (read : ofTokens tokens = .ok stmts) {fault : CompileFault}
    (found : (Node.body stmts).Has fault) : fault.survivesReading = true := by
  have tidy : ∀ stmt ∈ stmts, Parser.TidyStmt stmt := by
    unfold ofTokens at read
    split at read
    · cases read
      nofun
    · rename_i token ahead
      cases reply : Parser.parseAll token ahead with
      | ok result after =>
          rw [reply] at read
          cases read
          exact Parser.Task.gives (.statements []) nofun _ _ _ reply
      | failed error stopped =>
          rw [reply] at read
          cases read
      | exhausted =>
          rw [reply] at read
          cases read
  obtain ⟨stmt, member, found⟩ := Node.has_body.mp found
  exact tidy stmt member false fault found

end MiniScript
