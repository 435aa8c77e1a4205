import MiniScript.Proofs.Compiler.Bodies

/-!
# The constants of compiled code

The only values that stand in compiled code are nulls, numbers and texts, and so are the
defaults of parameters. No list, map or function comes from the code itself.
-/

namespace MiniScript

/-- Null, a number or a text. -/
def Value.isLiteral : Value → Bool
  | .null => true
  | .number _ => true
  | .text _ => true
  | _ => false

/-- If the first operand is a value it is a literal. -/
def Instr.isLiteral (instr : Instr) : Bool :=
  match instr.first with
  | .value value => value.isLiteral
  | _ => true

/-- The defaults are literals, and so are the constants in the code. -/
structure Definition.IsLiteral (definition : Definition) : Prop where
  defaults : ∀ param ∈ definition.params, param.default.isLiteral = true
  constants : ∀ code, definition.body = .script code → ∀ instr ∈ code.instrs,
    instr.isLiteral = true

namespace Compiler

/-- The computation adds only definitions whose constants are literals, and its result is as it
should be. -/
def AddsLiterals {α : Type} (post : α → Prop) (computation : Lay α) : Prop :=
  ∀ ⦃before result after⦄, Yields computation before result after →
    post result ∧
      ∀ definition ∈ after.functions, definition ∈ before.functions ∨ definition.IsLiteral

namespace AddsLiterals

variable {α β : Type} {post : α → Prop} {goal : β → Prop}

theorem pure {value : α} (holds : post value) : AddsLiterals post (Pure.pure value) := by
  intro before result after ran
  obtain ⟨rfl, rfl⟩ := yields_pure.mp ran
  exact ⟨holds, fun _ => .inl⟩

theorem bind {first : Lay α} {next : α → Lay β} (start : AddsLiterals post first)
    (rest : ∀ value, post value → AddsLiterals goal (next value)) :
    AddsLiterals goal (first >>= next) := by
  intro before result after ran
  obtain ⟨value, middle, opened, ran⟩ := yields_bind.mp ran
  obtain ⟨holds, early⟩ := start opened
  obtain ⟨reached, late⟩ := rest value holds ran
  refine ⟨reached, fun definition member => ?_⟩
  rcases late definition member with known | literal
  · exact early definition known
  · exact .inr literal

theorem reject (fault : CompileFault) (line : Nat) : AddsLiterals post (reject fault line) :=
  fun _ _ _ ran => (yields_reject.mp ran).elim

theorem ite {condition : Prop} [Decidable condition] {first second : Lay α}
    (yes : AddsLiterals post first) (no : AddsLiterals post second) :
    AddsLiterals post (if condition then first else second) := by
  split
  · exact yes
  · exact no

theorem takeLoop : AddsLiterals (fun _ => True) takeLoop := by
  intro before id after ran
  obtain ⟨-, rfl⟩ := yields_takeLoop.mp ran
  exact ⟨trivial, fun _ => .inl⟩

end AddsLiterals

/-- Code all of whose constants are literals. -/
def AllLiteral (instrs : List Instr) : Prop :=
  ∀ instr ∈ instrs, instr.isLiteral = true

/-- Steps that give such code. -/
def StepsLiteral (steps : List Builder.Step) : Prop :=
  AllLiteral (Builder.instrsOf steps)

theorem literalValue?_isLiteral {expr : Expr} {value : Value}
    (literal : literalValue? expr = some value) : value.isLiteral = true := by
  unfold literalValue? at literal
  split at literal
  · cases literal
    rfl
  · cases literal
    rfl
  · cases literal
    rfl
  · cases literal
    rfl
  · split at literal
    · cases literal
      rfl
    · cases literal
  · cases literal

theorem compileParams_literal (params : List Param) :
    AddsLiterals (fun params => ∀ param ∈ params, param.default.isLiteral = true)
      (liftM (compileParams params)) := by
  induction params with
  | nil => exact .pure nofun
  | cons param rest ih =>
      obtain ⟨id, ident, default⟩ := param
      cases default with
      | none =>
          rw [compileParams, liftM_bind]
          exact ih.bind fun others literal => .pure (List.forall_mem_cons.mpr ⟨rfl, literal⟩)
      | some default =>
          unfold compileParams
          split
          · exact .reject _ _
          · rename_i value found
            rw [liftM_bind]
            exact ih.bind fun others literal =>
              .pure (List.forall_mem_cons.mpr ⟨literalValue?_isLiteral found, literal⟩)

section

variable {first second : List Instr}

theorem AllLiteral.append (start : AllLiteral first) (next : AllLiteral second) :
    AllLiteral (first ++ second) :=
  List.forall_mem_append.mpr ⟨start, next⟩

theorem AllLiteral.nil : AllLiteral [] :=
  fun _ member => nomatch member

theorem AllLiteral.single {instr : Instr} (literal : instr.isLiteral = true) :
    AllLiteral [instr] :=
  List.forall_mem_singleton.mpr literal

theorem AllLiteral.pair {one other : Instr} (literal : one.isLiteral = true)
    (alike : other.isLiteral = true) : AllLiteral [one, other] :=
  List.forall_mem_cons.mpr ⟨literal, AllLiteral.single alike⟩

theorem nameInstr_literal (mode : Mode) (name : String) :
    (nameInstr mode name).isLiteral = true := by
  unfold nameInstr
  split
  · rfl
  · cases mode <;> rfl

theorem indexInstr_literal (mode : Mode) : (indexInstr mode).isLiteral = true := by
  cases mode <;> rfl

theorem superInstr_literal (mode : Mode) : (superInstr mode).isLiteral = true := by
  cases mode <;> rfl

theorem linkInstrs_literal (op : BinaryOp) (isLast : Bool) (failure : Nat) :
    AllLiteral (linkInstrs op isLast failure) := by
  cases isLast with
  | true => exact AllLiteral.single rfl
  | false => exact AllLiteral.pair rfl rfl

theorem beforeStore_literal (op : Option BinaryOp) : AllLiteral (beforeStore op) := by
  cases op with
  | none => exact AllLiteral.nil
  | some op => exact AllLiteral.pair rfl rfl

theorem combine_literal (op : Option BinaryOp) : AllLiteral (combine op) := by
  cases op with
  | none => exact AllLiteral.nil
  | some op => exact AllLiteral.single rfl

theorem closing_literal (kind : BodyKind) : AllLiteral (closing kind) := by
  cases kind with
  | program => exact AllLiteral.nil
  | function => exact AllLiteral.pair rfl rfl
  | module => exact AllLiteral.pair rfl rfl

theorem emitSteps_literal {instrs : List Instr} (literal : AllLiteral instrs) :
    StepsLiteral (emitSteps instrs) := by
  rw [StepsLiteral, instrsOf_emitSteps]
  exact literal

theorem emitUnmapped_literal {instr : Instr} (literal : instr.isLiteral = true) :
    StepsLiteral [.emitUnmapped instr] :=
  AllLiteral.single literal

theorem StepsLiteral.append {first second : List Builder.Step} (start : StepsLiteral first)
    (next : StepsLiteral second) : StepsLiteral (first ++ second) := by
  rw [StepsLiteral, instrsOf_append]
  exact AllLiteral.append start next

end

variable {sourceName : Option String}

/-- The constants of a body are those of its statements and of its closing. -/
theorem body_literal {kind : BodyKind} {stmts : List Stmt} {functions result : Array Definition}
    {code : Code} (literal : AddsLiterals StepsLiteral (layStmts sourceName 0 none stmts))
    (compiled : compileBody sourceName kind stmts functions = .ok (code, result)) :
    (∀ instr ∈ code.instrs, instr.isLiteral = true) ∧
      ∀ definition ∈ result, definition ∈ functions ∨ definition.IsLiteral := by
  obtain ⟨steps, state, ran, same, rfl⟩ := compileBody_steps compiled
  obtain ⟨constants, added⟩ := literal ran
  refine ⟨fun instr member => ?_, added⟩
  have whole : AllLiteral code.instrs.toList := by
    rw [same]
    refine AllLiteral.append constants ?_
    split
    · exact AllLiteral.nil
    · exact closing_literal kind
  exact whole instr (Array.mem_toList_iff.mpr member)

mutual

theorem layExpr_literal (expr : Expr) (mode : Mode) (position : Nat) :
    AddsLiterals AllLiteral (layExpr sourceName mode position expr) := by
  cases expr with
  | number | text | bool | null | self | super => exact .pure (AllLiteral.single rfl)
  | name ident => exact .pure (AllLiteral.single (nameInstr_literal mode ident.name))
  | unary op span id operand =>
      rw [layExpr]
      exact (layExpr_literal operand _ _).bind fun code constants =>
        .pure (constants.append (AllLiteral.single rfl))
  | binary left op span id right =>
      rw [layExpr]
      exact (layExpr_literal left _ _).bind fun first one =>
        (layExpr_literal right _ _).bind fun second two =>
          .pure ((one.append two).append (AllLiteral.single rfl))
  | logic left op span id right =>
      rw [layExpr]
      refine (layExpr_literal left _ _).bind fun first one =>
        (layExpr_literal right _ _).bind fun second two => .pure ?_
      refine (((one.append (AllLiteral.single rfl)).append two).append
        (AllLiteral.single rfl)).append ?_
      cases op <;> exact List.forall_mem_cons.mpr ⟨rfl, AllLiteral.pair rfl rfl⟩
  | chain span id items ops =>
      cases items with
      | nil => exact .pure (AllLiteral.single rfl)
      | cons first rest =>
          rw [layExpr]
          refine .ite ?_ (.reject _ _)
          exact (layExpr_literal first _ _).bind fun head one =>
            (layLinks_literal rest _ _ _).bind fun links two =>
              .pure ((one.append two).append
                (List.forall_mem_cons.mpr ⟨rfl, AllLiteral.pair rfl rfl⟩))
  | group span id inner =>
      rw [layExpr]
      exact layExpr_literal inner _ _
  | list span id items =>
      rw [layExpr]
      exact (layExprs_literal items _).bind fun code constants =>
        .pure (constants.append (AllLiteral.single rfl))
  | map span id entries =>
      rw [layExpr]
      exact (layEntries_literal entries _).bind fun code constants =>
        .pure (constants.append (AllLiteral.single rfl))
  | index span id base index =>
      rw [layExpr]
      exact (layExpr_literal base _ _).bind fun first one =>
        (layExpr_literal index _ _).bind fun second two =>
          .pure ((one.append two).append (AllLiteral.single (indexInstr_literal mode)))
  | member base field id =>
      rw [layExpr]
      refine .ite (.pure (AllLiteral.pair rfl (superInstr_literal mode))) ?_
      exact (layExpr_literal base _ _).bind fun code constants =>
        .pure (constants.append (AllLiteral.pair rfl (indexInstr_literal mode)))
  | slice span id base first last =>
      rw [layExpr]
      exact (layExpr_literal base _ _).bind fun target one =>
        (layBound_literal first _).bind fun low two =>
          (layBound_literal last _).bind fun high three =>
            .pure (((one.append two).append three).append (AllLiteral.single rfl))
  | call span id callee args =>
      have whole := layExpr_literal callee .invoke
      cases callee with
      | name ident =>
          rw [layExpr]
          refine .ite (.reject _ _) (.ite ?_ ?_)
          · exact (layExprs_literal args _).bind fun code constants =>
              .pure (((AllLiteral.single (nameInstr_literal _ _)).append constants).append
                (AllLiteral.single rfl))
          · exact (layExprs_literal args _).bind fun code constants =>
              .pure (constants.append (AllLiteral.single rfl))
      | member base field id =>
          rw [layExpr]
          refine .ite (.reject _ _) (.ite ?_ ?_)
          · exact (layExprs_literal args _).bind fun code constants =>
              .pure (((AllLiteral.single rfl).append constants).append (AllLiteral.single rfl))
          · exact (layExpr_literal base _ _).bind fun target one =>
              (layExprs_literal args _).bind fun code constants =>
                .pure (((one.append (AllLiteral.single rfl)).append constants).append
                  (AllLiteral.single rfl))
      | index span id base index =>
          rw [layExpr]
          refine .ite (.reject _ _) ?_
          exact (layExpr_literal base _ _).bind fun target one =>
            (layExpr_literal index _ _).bind fun key two =>
              (layExprs_literal args _).bind fun code constants =>
                .pure (((one.append two).append constants).append (AllLiteral.single rfl))
      | _ =>
          simp only [layExpr] at whole ⊢
          refine .ite (.reject _ _) ?_
          exact (whole position).bind fun target one =>
            (layExprs_literal args _).bind fun code constants =>
              .pure ((one.append constants).append (AllLiteral.single rfl))
  | reference span id inner =>
      rw [layExpr]
      exact layExpr_literal inner _ _
  | function span id params body =>
      intro before result after ran
      simp only [layExpr, yields_bind, yields_get, yields_set, yields_lift, yields_takeFunction,
        yields_pure] at ran
      obtain ⟨parameters, _, ⟨ranParams, rfl⟩, _, outer, ⟨rfl, rfl⟩, _, _, rfl, steps, inner,
        ranBody, finished, _, ⟨assembled, rfl⟩, _, _, ⟨rfl, rfl⟩, _, _, rfl, ref, _, ⟨rfl, rfl⟩,
        rfl, rfl⟩ := ran
      have given : Yields (liftM (compileParams params)) outer parameters outer :=
        yields_lift.mpr ⟨ranParams, rfl⟩
      have defaults := (compileParams_literal params given).1
      have compiled := compileBody_eq_ok_iff.mpr ⟨steps, _, ranBody, assembled, rfl⟩
      obtain ⟨constants, added⟩ := body_literal (layStmts_literal body 0 none) compiled
      refine ⟨AllLiteral.single rfl, fun definition member => ?_⟩
      rcases Array.mem_push.mp member with known | rfl
      · exact added definition known
      · exact .inr ⟨defaults, by rintro code ⟨⟩; exact constants⟩

theorem layLinks_literal (items : List Expr) (failure position : Nat) (ops : List BinaryOp) :
    AddsLiterals AllLiteral (layLinks sourceName failure position ops items) := by
  cases items with
  | nil => cases ops <;> exact .pure AllLiteral.nil
  | cons item rest =>
      cases ops with
      | nil => exact .pure AllLiteral.nil
      | cons op ops =>
          rw [layLinks]
          exact (layExpr_literal item _ _).bind fun code one =>
            (layLinks_literal rest _ _ _).bind fun links two =>
              .pure ((one.append (linkInstrs_literal _ _ _)).append two)

theorem layExprs_literal (items : List Expr) (position : Nat) :
    AddsLiterals AllLiteral (layExprs sourceName position items) := by
  cases items with
  | nil => exact .pure AllLiteral.nil
  | cons item rest =>
      rw [layExprs]
      exact (layExpr_literal item _ _).bind fun code one =>
        (layExprs_literal rest _).bind fun more two => .pure (one.append two)

theorem layEntries_literal (entries : List (Expr × Expr)) (position : Nat) :
    AddsLiterals AllLiteral (layEntries sourceName position entries) := by
  cases entries with
  | nil => exact .pure AllLiteral.nil
  | cons entry rest =>
      obtain ⟨key, value⟩ := entry
      rw [layEntries]
      exact (layExpr_literal key _ _).bind fun first one =>
        (layExpr_literal value _ _).bind fun second two =>
          (layEntries_literal rest _).bind fun more three =>
            .pure ((one.append two).append three)

theorem layBound_literal (bound : Option Expr) (position : Nat) :
    AddsLiterals AllLiteral (layBound sourceName position bound) := by
  cases bound with
  | none => exact .pure (AllLiteral.single rfl)
  | some bound =>
      rw [layBound]
      exact layExpr_literal bound _ _

theorem layStmt_literal (stmt : Stmt) (position : Nat) (loop : Option LoopPlace) :
    AddsLiterals StepsLiteral (layStmt sourceName position loop stmt) := by
  cases stmt with
  | expr id value =>
      rw [layStmt]
      exact (layExpr_literal value _ _).bind fun code constants =>
        .pure (emitSteps_literal (constants.append (AllLiteral.single rfl)))
  | assign id target op value =>
      cases target with
      | name ident =>
          cases op with
          | none =>
              rw [layStmt]
              exact (layExpr_literal value _ _).bind fun code constants =>
                .pure (emitSteps_literal (constants.append (AllLiteral.single rfl)))
          | some op =>
              rw [layStmt]
              exact (layExpr_literal value _ _).bind fun code constants =>
                .pure (emitSteps_literal
                  (((AllLiteral.single (nameInstr_literal _ _)).append constants).append
                    (AllLiteral.pair rfl rfl)))
      | member base field id =>
          rw [layStmt]
          exact (layExpr_literal base _ _).bind fun target one =>
            (layExpr_literal value _ _).bind fun code two =>
              .pure (emitSteps_literal
                (((((one.append (AllLiteral.single rfl)).append (beforeStore_literal op)).append
                  two).append (combine_literal op)).append (AllLiteral.single rfl)))
      | index span id base index =>
          rw [layStmt]
          exact (layExpr_literal base _ _).bind fun target one =>
            (layExpr_literal index _ _).bind fun key two =>
              (layExpr_literal value _ _).bind fun code three =>
                .pure (emitSteps_literal
                  (((((one.append two).append (beforeStore_literal op)).append three).append
                    (combine_literal op)).append (AllLiteral.single rfl)))
      | _ => exact .reject _ _
  | ifElse id span condition thenBranch elseBranch =>
      cases elseBranch with
      | none =>
          rw [layStmt]
          exact (layExpr_literal condition _ _).bind fun test one =>
            (layStmts_literal thenBranch _ _).bind fun branch two =>
              .pure ((emitSteps_literal (one.append (AllLiteral.single rfl))).append two)
      | some elseBranch =>
          rw [layStmt]
          exact (layExpr_literal condition _ _).bind fun test one =>
            (layStmts_literal thenBranch _ _).bind fun branch two =>
              (layStmts_literal elseBranch _ _).bind fun other three =>
                .pure ((((emitSteps_literal (one.append (AllLiteral.single rfl))).append two).append
                  (emitUnmapped_literal rfl)).append three)
  | whileLoop id span condition body =>
      rw [layStmt]
      exact (layExpr_literal condition _ _).bind fun test one =>
        (layStmts_literal body _ _).bind fun steps two =>
          .pure (((emitSteps_literal (one.append (AllLiteral.single rfl))).append two).append
            (emitSteps_literal (AllLiteral.single rfl)))
  | forLoop id span var iter body =>
      rw [layStmt]
      exact AddsLiterals.takeLoop.bind fun number _ =>
        (layExpr_literal iter _ _).bind fun source one =>
          (layStmts_literal body _ _).bind fun steps two =>
            .pure (((emitSteps_literal (one.append (AllLiteral.pair rfl rfl))).append two).append
              (emitSteps_literal (AllLiteral.single rfl)))
  | breakLoop id span | continueLoop id span =>
      rcases loop with _ | ⟨start, stop⟩ | id
      · exact .reject _ _
      · exact .pure (emitSteps_literal (AllLiteral.single rfl))
      · exact .pure (emitSteps_literal (AllLiteral.single rfl))
  | returnValue id span value =>
      rw [layStmt]
      exact (layBound_literal value _).bind fun code constants =>
        .pure (emitSteps_literal (constants.append (AllLiteral.single rfl)))

theorem layStmts_literal (stmts : List Stmt) (position : Nat) (loop : Option LoopPlace) :
    AddsLiterals StepsLiteral (layStmts sourceName position loop stmts) := by
  cases stmts with
  | nil => exact .pure AllLiteral.nil
  | cons stmt rest =>
      rw [layStmts]
      refine (layStmt_literal stmt _ _).bind fun steps one =>
        (layStmts_literal rest _ _).bind fun more two => .pure ?_
      rw [StepsLiteral, instrsOf_bracket]
      exact AllLiteral.append one two

end

/-- All constants of a program and of its functions are literals. -/
theorem compileProgram_literal {stmts : List Stmt} {functions result : Array Definition}
    {code : Code} (compiled : compileProgram sourceName stmts functions = .ok (code, result)) :
    (∀ instr ∈ code.instrs, instr.isLiteral = true) ∧
      ∀ definition ∈ result, definition ∈ functions ∨ definition.IsLiteral :=
  body_literal (layStmts_literal stmts 0 none) compiled

end Compiler

end MiniScript
