import MiniScript.Proofs.Compiler.Written

/-!
# Code that is laid out has a layout

By recursion on the tree: what an expression or statement is laid out as is a piece
of code that has the size that was computed for it.
-/

namespace MiniScript

open Compiler

namespace Compiler

theorem instrsOf_emitSteps (instrs : List Instr) :
    Builder.instrsOf (emitSteps instrs) = instrs := by
  induction instrs with
  | nil => rfl
  | cons instr rest ih => exact congrArg (instr :: ·) ih

theorem instrsOf_append (first second : List Builder.Step) :
    Builder.instrsOf (first ++ second) = Builder.instrsOf first ++ Builder.instrsOf second :=
  List.filterMap_append

theorem instrsOf_emitUnmapped (instr : Instr) :
    Builder.instrsOf [.emitUnmapped instr] = [instr] :=
  rfl

theorem instrsOf_bracket (line : Nat) (inner rest : List Builder.Step) :
    Builder.instrsOf
        ([Builder.Step.openSource line] ++ inner ++ [Builder.Step.closeSource] ++ rest) =
      Builder.instrsOf inner ++ Builder.instrsOf rest := by
  simp only [instrsOf_append]
  rw [show Builder.instrsOf [.openSource line] = [] from rfl,
    show Builder.instrsOf [.closeSource] = [] from rfl, List.nil_append, List.append_nil]

theorem nameInstr_straight (mode : Mode) (name : String) : (nameInstr mode name).Straight 0 1 := by
  unfold nameInstr
  split
  · exact .pushScope _
  · cases mode with
    | invoke => exact .callVar name 0
    | read => exact .loadVar name

theorem indexInstr_straight (mode : Mode) : (indexInstr mode).Straight 2 1 := by
  cases mode with
  | invoke => exact .callIndex 0
  | read => exact .loadIndex

theorem superInstr_straight (mode : Mode) : (superInstr mode).Straight 1 1 := by
  cases mode with
  | invoke => exact .callSuper 0
  | read => exact .loadSuperIndex

theorem logicParts_branches (op : LogicOp) :
    (logicParts op).1 = .jumpIfFalse ∨ (logicParts op).1 = .jumpIfTrue := by
  cases op with
  | and => exact Or.inl rfl
  | or => exact Or.inr rfl

theorem endsInReturn_cons_cons (stmt next : Stmt) (rest : List Stmt) :
    endsInReturn (stmt :: next :: rest) = endsInReturn (next :: rest) := by
  simp only [endsInReturn, List.getLast?_cons_cons]

/-- A store to a member or an index; a compound one first reads what is there. -/
theorem WrittenBlock.ofStore (op : Option BinaryOp) {position size more : Nat}
    {loop : Option LoopPlace} {before middle after : LayState} {code value : List Instr}
    (key : Written position 2 size before middle code)
    (operand : Written (position + (code ++ beforeStore op).length) 1 more middle after value) :
    WrittenBlock position (size + storeSize op more) loop false before after
      (code ++ beforeStore op ++ value ++ combine op ++ [{ op := .assignIndex }]) := by
  cases op with
  | none =>
      simp only [beforeStore, combine, List.append_nil] at operand ⊢
      exact .ofWritten (key.append operand) .assignIndex
  | some op =>
      have doubled :
          Written position (2 + 2) (size + 1) before middle (code ++ [{ op := .dup2 }]) :=
        key.apply .dup2
      have read : Written position (2 + 1) (size + 2) before middle
          (code ++ beforeStore (some op)) := by
        rw [beforeStore, List.append_cons]
        exact doubled.applyAbove (.callIndex 0)
      have operands : Written position (2 + 2) (size + 2 + more) before after
          (code ++ beforeStore (some op) ++ value) := read.append operand
      have combined : Written position (2 + 1) (size + 2 + more + 1) before after
          (code ++ beforeStore (some op) ++ value ++ combine (some op)) :=
        operands.applyAbove (.binary op)
      rw [storeSize, show size + (more + 4) = size + 2 + more + 1 + 1 by omega]
      exact .ofWritten combined .assignIndex

variable {sourceName : Option String}

mutual

theorem layExpr_written (expr : Expr) {mode : Mode} {position : Nat} {before after : LayState}
    {code : List Instr}
    (ran : Yields (layExpr sourceName mode position expr) before code after) :
    Written position 1 (exprSize expr) before after code := by
  cases expr with
  | number | text | bool | null =>
      simp only [layExpr, yields_pure] at ran
      obtain ⟨rfl, rfl⟩ := ran
      exact .single (.pushValue _)
  | name ident =>
      simp only [layExpr, yields_pure] at ran
      obtain ⟨rfl, rfl⟩ := ran
      exact .single (nameInstr_straight mode ident.name)
  | self | super =>
      simp only [layExpr, yields_pure] at ran
      obtain ⟨rfl, rfl⟩ := ran
      exact .single (.loadVar _)
  | unary op span id operand =>
      simp only [layExpr, yields_bind, yields_pure] at ran
      obtain ⟨inner, middle, ran, rfl, rfl⟩ := ran
      exact (layExpr_written operand ran).apply (.unary op)
  | binary left op span id right =>
      simp only [layExpr, yields_bind, yields_pure] at ran
      obtain ⟨first, middle, ranLeft, second, last, ranRight, rfl, rfl⟩ := ran
      exact ((layExpr_written left ranLeft).append (layExpr_written right ranRight)).apply
        (.binary op)
  | logic left op span id right =>
      simp only [layExpr, yields_bind, yields_pure] at ran
      obtain ⟨first, middle, ranLeft, second, last, ranRight, rfl, rfl⟩ := ran
      exact .logic (logicParts_branches op) _ _ rfl (layExpr_written left ranLeft)
        (layExpr_written right ranRight)
  | chain span id items ops =>
      cases items with
      | nil =>
          simp only [layExpr, yields_pure] at ran
          obtain ⟨rfl, rfl⟩ := ran
          exact .single (.pushValue _)
      | cons first rest =>
          simp only [layExpr, yields_ite, yields_bind, yields_pure, yields_reject, and_false,
            or_false] at ran
          obtain ⟨same, head, middle, ranHead, links, last, ranLinks, rfl, rfl⟩ := ran
          have tail := layLinks_written rest (by rw [List.length_map, same]) ranLinks
          have front := layExpr_written first ranHead
          exact tail.chain front rfl
  | group span id inner =>
      simp only [layExpr] at ran
      exact layExpr_written inner ran
  | list span id items =>
      simp only [layExpr, yields_bind, yields_pure] at ran
      obtain ⟨inner, middle, ran, rfl, rfl⟩ := ran
      exact (layExprs_written items ran).apply (.buildList _)
  | map span id entries =>
      simp only [layExpr, yields_bind, yields_pure] at ran
      obtain ⟨inner, middle, ran, rfl, rfl⟩ := ran
      exact (layEntries_written entries ran).apply (.buildMap _)
  | index span id base index =>
      simp only [layExpr, yields_bind, yields_pure] at ran
      obtain ⟨first, middle, ranBase, second, last, ranIndex, rfl, rfl⟩ := ran
      exact ((layExpr_written base ranBase).append (layExpr_written index ranIndex)).apply
        (indexInstr_straight mode)
  | member base field id =>
      simp only [layExpr, yields_ite, yields_bind, yields_pure] at ran
      rw [exprSize]
      rcases ran with ⟨isSuper, rfl, rfl⟩ | ⟨isOther, inner, middle, ran, rfl, rfl⟩
      · rw [if_pos isSuper]
        exact (Written.single (.pushValue _)).apply (superInstr_straight mode)
      · rw [if_neg isOther, List.append_cons]
        exact ((layExpr_written base ran).append (.single (.pushValue _))).apply
          (indexInstr_straight mode)
  | slice span id base first last =>
      simp only [layExpr, yields_bind, yields_pure] at ran
      obtain ⟨target, middle, ranBase, low, next, ranLow, high, final, ranHigh, rfl, rfl⟩ := ran
      have bounds := (layExpr_written base ranBase).append (layBound_written first ranLow)
      rw [Nat.add_assoc, ← List.length_append] at ranHigh
      exact (bounds.append (layBound_written last ranHigh)).apply .slice
  | call span id callee args =>
      have arguments {position : Nat} {before after : LayState} {code : List Instr}
          (ran : Yields (layExprs sourceName position args) before code after) :=
        layExprs_written args ran
      have whole {position : Nat} {before after : LayState} {code : List Instr}
          (ran : Yields (layExpr sourceName .invoke position callee) before code after) :=
        layExpr_written callee ran
      cases callee with
      | name ident =>
          simp only [layExpr, yields_ite, yields_bind, yields_pure, yields_reject, and_false,
            false_or] at ran
          rw [exprSize]
          rcases ran with ⟨_, ⟨isScope, code, _, ran, rfl, rfl⟩ | ⟨isOther, code, _, ran, rfl, rfl⟩⟩
          · rw [if_pos isScope]
            exact ((Written.single (nameInstr_straight .invoke ident.name)).append
              (arguments ran)).apply (Nat.add_comm _ _ ▸ .callValue _)
          · rw [if_neg isOther, Nat.zero_add]
            exact (arguments ran).apply (.callVar _ _)
      | member base field id =>
          simp only [layExpr, yields_ite, yields_bind, yields_pure, yields_reject, and_false,
            false_or] at ran
          rw [exprSize]
          rcases ran with ⟨_, ⟨isSuper, code, _, ran, rfl, rfl⟩ |
            ⟨isOther, target, middle, ranBase, code, _, ran, rfl, rfl⟩⟩
          · rw [if_pos isSuper]
            exact ((Written.single (.pushValue _)).append (arguments ran)).apply
              (Nat.add_comm _ _ ▸ .callSuper _)
          · rw [if_neg isOther]
            have key := (layExpr_written base ranBase).append
              (Written.single (.pushValue (.text field.name)))
            have length : position + target.length + 1 =
                position + (target ++ [pushValue (.text field.name)]).length := by
              rw [List.length_append, Nat.add_assoc]
              rfl
            rw [length] at ran
            exact (key.append (arguments ran)).apply (Nat.add_comm _ _ ▸ .callIndex _)
      | index span id base index =>
          simp only [layExpr, yields_ite, yields_bind, yields_pure, yields_reject, and_false,
            false_or] at ran
          rw [exprSize]
          obtain ⟨_, target, middle, ranBase, key, next, ranIndex, code, _, ran, rfl, rfl⟩ := ran
          have key := (layExpr_written base ranBase).append (layExpr_written index ranIndex)
          rw [Nat.add_assoc, ← List.length_append] at ran
          exact (key.append (arguments ran)).apply (Nat.add_comm _ _ ▸ .callIndex _)
      | _ =>
          simp only [layExpr, yields_ite, yields_bind, yields_pure, yields_reject, and_false,
            false_or] at ran whole
          obtain ⟨_, target, middle, ranCallee, code, _, ran, rfl, rfl⟩ := ran
          exact ((whole ranCallee).append (arguments ran)).apply (Nat.add_comm _ _ ▸ .callValue _)
  | reference span id inner =>
      simp only [layExpr] at ran
      exact layExpr_written inner ran
  | function span id params body =>
      simp only [layExpr, yields_bind, yields_get, yields_set, yields_lift, yields_takeFunction,
        yields_pure] at ran
      obtain ⟨parameters, _, ⟨_, rfl⟩, outer, _, ⟨rfl, rfl⟩, _, _, rfl, steps, inner, ranBody,
        finished, _, ⟨assembled, rfl⟩, _, _, ⟨rfl, rfl⟩, _, _, rfl, ref, _, ⟨rfl, rfl⟩, rfl,
        rfl⟩ := ran
      exact
        { length := rfl
          plain := List.forall_mem_singleton.mpr ⟨rfl, rfl⟩
          pushes := Pushes.nil.apply (.pushFunction _)
          numbers := rfl }

theorem layLinks_written (items : List Expr) {failure position : Nat} {ops : List BinaryOp}
    {before after : LayState} {code : List Instr} (same : ops.length = items.length)
    (ran : Yields (layLinks sourceName failure position ops items) before code after) :
    WrittenLinks failure position (linksSize items) before after code := by
  cases items with
  | nil =>
      cases ops with
      | nil =>
          simp only [layLinks, yields_pure] at ran
          obtain ⟨rfl, rfl⟩ := ran
          exact .nil
      | cons => cases same
  | cons item rest =>
      cases ops with
      | nil => cases same
      | cons op ops =>
          simp only [layLinks, yields_bind, yields_pure] at ran
          obtain ⟨inner, middle, ranItem, links, last, ranRest, rfl, rfl⟩ := ran
          have tail := layLinks_written rest (Nat.succ.inj same) ranRest
          exact tail.cons op rest.isEmpty (layExpr_written item ranItem)

theorem layExprs_written (items : List Expr) {position : Nat} {before after : LayState}
    {code : List Instr} (ran : Yields (layExprs sourceName position items) before code after) :
    Written position items.length (exprsSize items) before after code := by
  cases items with
  | nil =>
      simp only [layExprs, yields_pure] at ran
      obtain ⟨rfl, rfl⟩ := ran
      exact .nil
  | cons item rest =>
      simp only [layExprs, yields_bind, yields_pure] at ran
      obtain ⟨first, middle, ranItem, more, last, ranRest, rfl, rfl⟩ := ran
      rw [List.length_cons, Nat.add_comm]
      exact (layExpr_written item ranItem).append (layExprs_written rest ranRest)

theorem layEntries_written (entries : List (Expr × Expr)) {position : Nat}
    {before after : LayState} {code : List Instr}
    (ran : Yields (layEntries sourceName position entries) before code after) :
    Written position (entries.length * 2) (entriesSize entries) before after code := by
  cases entries with
  | nil =>
      simp only [layEntries, yields_pure] at ran
      obtain ⟨rfl, rfl⟩ := ran
      exact .nil
  | cons entry rest =>
      obtain ⟨key, value⟩ := entry
      simp only [layEntries, yields_bind, yields_pure] at ran
      obtain ⟨first, middle, ranKey, second, next, ranValue, more, last, ranRest, rfl, rfl⟩ := ran
      have pair := (layExpr_written key ranKey).append (layExpr_written value ranValue)
      rw [Nat.add_assoc, ← List.length_append] at ranRest
      rw [List.length_cons, Nat.succ_mul, Nat.add_comm]
      exact pair.append (layEntries_written rest ranRest)

theorem layBound_written (bound : Option Expr) {position : Nat} {before after : LayState}
    {code : List Instr} (ran : Yields (layBound sourceName position bound) before code after) :
    Written position 1 (boundSize bound) before after code := by
  cases bound with
  | none =>
      simp only [layBound, yields_pure] at ran
      obtain ⟨rfl, rfl⟩ := ran
      exact .single (.pushValue _)
  | some bound =>
      simp only [layBound] at ran
      exact layExpr_written bound ran

theorem layStmt_written (stmt : Stmt) {position : Nat} {loop : Option LoopPlace}
    {before after : LayState} {steps : List Builder.Step}
    (ran : Yields (layStmt sourceName position loop stmt) before steps after) :
    WrittenBlock position (stmtSize stmt) loop (endsInReturn [stmt]) before after
      (Builder.instrsOf steps) := by
  cases stmt with
  | expr id value =>
      simp only [layStmt, yields_bind, yields_pure] at ran
      obtain ⟨code, _, ran, rfl, rfl⟩ := ran
      rw [instrsOf_emitSteps]
      exact .ofWritten (layExpr_written value ran) .pop
  | assign id target op value =>
      cases target with
      | name ident =>
          cases op with
          | none =>
              simp only [layStmt, yields_bind, yields_pure] at ran
              obtain ⟨code, _, ran, rfl, rfl⟩ := ran
              rw [instrsOf_emitSteps]
              exact .ofWritten (layExpr_written value ran) (.assignVar _)
          | some op =>
              simp only [layStmt, yields_bind, yields_pure] at ran
              obtain ⟨code, _, ran, rfl, rfl⟩ := ran
              rw [instrsOf_emitSteps, List.append_cons]
              have operands := (Written.single (nameInstr_straight .invoke ident.name)).append
                (layExpr_written value ran)
              rw [stmtSize, Nat.add_comm _ 3, Nat.add_right_comm 1 2]
              exact .ofWritten (operands.apply (.binary op)) (.assignVar _)
      | member base field id =>
          simp only [layStmt, yields_bind, yields_pure] at ran
          obtain ⟨target, middle, ranBase, code, _, ran, rfl, rfl⟩ := ran
          rw [instrsOf_emitSteps]
          have key := (layExpr_written base ranBase).append
            (Written.single (.pushValue (.text field.name)))
          exact .ofStore op key (layExpr_written value ran)
      | index span id base index =>
          simp only [layStmt, yields_bind, yields_pure] at ran
          obtain ⟨target, middle, ranBase, key, next, ranIndex, code, _, ran, rfl, rfl⟩ := ran
          rw [instrsOf_emitSteps]
          have key := (layExpr_written base ranBase).append (layExpr_written index ranIndex)
          exact .ofStore op key (layExpr_written value ran)
      | _ => simp only [layStmt, yields_reject] at ran
  | ifElse id span condition thenBranch elseBranch =>
      cases elseBranch with
      | none =>
          simp only [layStmt, yields_bind, yields_pure] at ran
          obtain ⟨test, middle, ranTest, branch, _, ranBranch, rfl, rfl⟩ := ran
          have condition := layExpr_written condition ranTest
          rw [condition.length] at ranBranch ⊢
          rw [instrsOf_append, instrsOf_emitSteps]
          exact .ifThen condition rfl (layStmts_written thenBranch ranBranch)
      | some elseBranch =>
          simp only [layStmt, yields_bind, yields_pure] at ran
          obtain ⟨test, middle, ranTest, branch, next, ranBranch, other, _, ranOther, rfl,
            rfl⟩ := ran
          have condition := layExpr_written condition ranTest
          rw [condition.length] at ranBranch ranOther ⊢
          simp only [instrsOf_append, instrsOf_emitSteps]
          exact .ifElse condition rfl rfl (layStmts_written thenBranch ranBranch)
            (layStmts_written elseBranch ranOther)
  | whileLoop id span condition body =>
      simp only [layStmt, yields_bind, yields_pure] at ran
      obtain ⟨test, middle, ranTest, inner, _, ranBody, rfl, rfl⟩ := ran
      have condition := layExpr_written condition ranTest
      rw [condition.length] at ranBody ⊢
      simp only [instrsOf_append, instrsOf_emitSteps]
      exact .whileLoop condition rfl (layStmts_written body ranBody)
  | forLoop id span var iter body =>
      simp only [layStmt, yields_bind, yields_takeLoop, yields_pure] at ran
      obtain ⟨_, _, ⟨number, rfl⟩, source, middle, ranIter, inner, _, ranBody, rfl, rfl⟩ := ran
      have subject := layExpr_written iter ranIter
      rw [subject.length] at ranBody ⊢
      simp only [instrsOf_append, instrsOf_emitSteps]
      exact .forLoop number subject rfl rfl (layStmts_written body ranBody)
  | breakLoop id span =>
      rcases loop with _ | ⟨start, stop⟩ | id
      · simp only [layStmt, yields_reject] at ran
      · simp only [layStmt, yields_pure] at ran
        obtain ⟨rfl, rfl⟩ := ran
        exact .ofExit ⟨rfl, rfl⟩ fun _ _ _ known => .jump known.2
      · simp only [layStmt, yields_pure] at ran
        obtain ⟨rfl, rfl⟩ := ran
        refine .ofExit ⟨rfl, rfl⟩ ?_
        rintro outermost exits _ ⟨start, stop, rest, rfl, small, apart, _, exit⟩
        exact .exit small apart exit
  | continueLoop id span =>
      rcases loop with _ | ⟨start, stop⟩ | id
      · simp only [layStmt, yields_reject] at ran
      · simp only [layStmt, yields_pure] at ran
        obtain ⟨rfl, rfl⟩ := ran
        exact .ofExit ⟨rfl, rfl⟩ fun _ _ _ known => .jump known.1
      · simp only [layStmt, yields_pure] at ran
        obtain ⟨rfl, rfl⟩ := ran
        refine .ofExit ⟨rfl, rfl⟩ ?_
        rintro outermost exits _ ⟨start, stop, rest, rfl, small, _, again, _⟩
        exact .again small again
  | returnValue id span value =>
      simp only [layStmt, yields_bind, yields_pure] at ran
      obtain ⟨code, _, ran, rfl, rfl⟩ := ran
      rw [instrsOf_emitSteps]
      exact .ofReturn (layBound_written value ran)

theorem layStmts_written (stmts : List Stmt) {position : Nat} {loop : Option LoopPlace}
    {before after : LayState} {steps : List Builder.Step}
    (ran : Yields (layStmts sourceName position loop stmts) before steps after) :
    WrittenBlock position (stmtsSize stmts) loop (endsInReturn stmts) before after
      (Builder.instrsOf steps) := by
  cases stmts with
  | nil =>
      simp only [layStmts, yields_pure] at ran
      obtain ⟨rfl, rfl⟩ := ran
      exact .nil
  | cons stmt rest =>
      simp only [layStmts, yields_bind, yields_pure] at ran
      obtain ⟨first, middle, ranStmt, more, _, ranRest, rfl, rfl⟩ := ran
      have front := layStmt_written stmt ranStmt
      have tail := layStmts_written rest ranRest
      rw [instrsOf_bracket]
      cases rest with
      | nil =>
          simp only [layStmts, yields_pure] at ranRest
          obtain ⟨rfl, rfl⟩ := ranRest
          exact (List.append_nil _).symm ▸ front
      | cons next rest =>
          rw [endsInReturn_cons_cons]
          exact front.append tail

end

theorem closing_plain (kind : BodyKind) : ∀ instr ∈ closing kind, instr.IsPlain := by
  cases kind with
  | program => exact fun _ member => nomatch member
  | function =>
      exact List.forall_mem_cons.mpr ⟨⟨rfl, rfl⟩, List.forall_mem_singleton.mpr ⟨rfl, rfl⟩⟩
  | module =>
      exact List.forall_mem_cons.mpr ⟨⟨rfl, rfl⟩, List.forall_mem_singleton.mpr ⟨rfl, rfl⟩⟩

/-- A body that does not end in a `return` is given one. -/
theorem closing_segment {kind : BodyKind} (inner : kind ≠ .program) (exits : Places)
    (position : Nat) (loops : List OpenLoop) :
    Segment false exits position (closing kind) (.level loops) none := by
  have leave (position : Nat) : Segment false exits position [{ op := .return }] ⟨1, loops⟩ none :=
    .single (.leave rfl)
  cases kind with
  | program => exact absurd rfl inner
  | function => exact .cons _ (.straight 0 (.pushValue .null) (Places.orAt_new _ _ _)) (leave _)
  | module => exact .cons _ (.straight 0 (.pushScope .locals) (Places.orAt_new _ _ _)) (leave _)

end Compiler

end MiniScript
