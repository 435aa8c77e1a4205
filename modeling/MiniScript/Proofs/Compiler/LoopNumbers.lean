import MiniScript.Proofs.Compiler.Agreement

/-!
# The numbers of the loops in a body

The `for` loops of a body are numbered in the order in which they are met, and a
function literal has a body of its own. The numbers tell the loops of a body apart
as long as there are fewer loops than numbers. A tree in which this is so for every
function literal adds only functions for which it is so.
-/

namespace MiniScript

namespace Compiler

mutual

/-- The `for` loops of a statement; those in function literals belong to other bodies. -/
def stmtLoops : Stmt → Nat
  | .ifElse _ _ _ thenBranch none => stmtsLoops thenBranch
  | .ifElse _ _ _ thenBranch (some elseBranch) => stmtsLoops thenBranch + stmtsLoops elseBranch
  | .whileLoop _ _ _ body => stmtsLoops body
  | .forLoop _ _ _ _ body => 1 + stmtsLoops body
  | _ => 0

def stmtsLoops : List Stmt → Nat
  | [] => 0
  | stmt :: rest => stmtLoops stmt + stmtsLoops rest

end

mutual

/-- Every function literal in the expression has fewer loops than there are numbers. -/
def exprFew : Expr → Bool
  | .unary _ _ _ operand => exprFew operand
  | .binary left _ _ _ right => exprFew left && exprFew right
  | .logic left _ _ _ right => exprFew left && exprFew right
  | .chain _ _ items _ => exprsFew items
  | .group _ _ inner => exprFew inner
  | .list _ _ items => exprsFew items
  | .map _ _ entries => entriesFew entries
  | .index _ _ base index => exprFew base && exprFew index
  | .member base _ _ => exprFew base
  | .slice _ _ base first last => exprFew base && boundFew first && boundFew last
  | .call _ _ callee args => exprFew callee && exprsFew args
  | .reference _ _ inner => exprFew inner
  | .function _ _ _ body => decide (stmtsLoops body < UInt32.size) && stmtsFew body
  | _ => true

def exprsFew : List Expr → Bool
  | [] => true
  | item :: rest => exprFew item && exprsFew rest

def entriesFew : List (Expr × Expr) → Bool
  | [] => true
  | (key, value) :: rest => exprFew key && exprFew value && entriesFew rest

def boundFew : Option Expr → Bool
  | none => true
  | some bound => exprFew bound

def stmtFew : Stmt → Bool
  | .expr _ value => exprFew value
  | .assign _ target _ value => exprFew target && exprFew value
  | .ifElse _ _ condition thenBranch none => exprFew condition && stmtsFew thenBranch
  | .ifElse _ _ condition thenBranch (some elseBranch) =>
      exprFew condition && stmtsFew thenBranch && stmtsFew elseBranch
  | .whileLoop _ _ condition body => exprFew condition && stmtsFew body
  | .forLoop _ _ _ iter body => exprFew iter && stmtsFew body
  | .returnValue _ _ value => boundFew value
  | _ => true

def stmtsFew : List Stmt → Bool
  | [] => true
  | stmt :: rest => stmtFew stmt && stmtsFew rest

end

/-- No body, neither that of the statements nor that of a function literal in them, has as many
loops as there are numbers. -/
def FewLoops (stmts : List Stmt) : Prop :=
  stmtsLoops stmts < UInt32.size ∧ stmtsFew stmts = true

theorem exprsFew_of_forall {items : List Expr} (few : ∀ item ∈ items, exprFew item = true) :
    exprsFew items = true := by
  induction items with
  | nil => rfl
  | cons item rest ih =>
      rw [List.forall_mem_cons] at few
      rw [exprsFew, few.1, ih few.2, Bool.true_and]

theorem entriesFew_of_forall {entries : List (Expr × Expr)}
    (few : ∀ entry ∈ entries, exprFew entry.1 = true ∧ exprFew entry.2 = true) :
    entriesFew entries = true := by
  induction entries with
  | nil => rfl
  | cons entry rest ih =>
      rw [List.forall_mem_cons] at few
      rw [entriesFew, few.1.1, few.1.2, ih few.2, Bool.true_and, Bool.true_and]

instance (stmts : List Stmt) : Decidable (FewLoops stmts) :=
  inferInstanceAs (Decidable (_ ∧ _))

end Compiler

/-- The code of a function or of the body of a module, as the compiler writes it, with fewer loops
than there are numbers. -/
def Code.IsBody (code : Code) : Prop :=
  ∃ sourceName kind stmts functions result, kind ≠ Compiler.BodyKind.program ∧
    Compiler.FewLoops stmts ∧
      Compiler.compileBody sourceName kind stmts functions = .ok (code, result)

/-- A native, or a function with code that the compiler has written. -/
def Definition.IsCompiled (definition : Definition) : Prop :=
  ∀ code, definition.body = .script code → code.IsBody

namespace Compiler

/-- Only compiled definitions have been added. -/
def Extends (before after : Array Definition) : Prop :=
  ∃ added : List Definition, after.toList = before.toList ++ added ∧
    ∀ definition ∈ added, definition.IsCompiled

namespace Extends

theorem refl (functions : Array Definition) : Extends functions functions :=
  ⟨[], (List.append_nil _).symm, nofun⟩

theorem trans {first second third : Array Definition} (before : Extends first second)
    (after : Extends second third) : Extends first third := by
  obtain ⟨early, earlyAdded, earlyCompiled⟩ := before
  obtain ⟨late, lateAdded, lateCompiled⟩ := after
  refine ⟨early ++ late, ?_, ?_⟩
  · rw [lateAdded, earlyAdded, List.append_assoc]
  · intro definition member
    rcases List.mem_append.mp member with member | member
    · exact earlyCompiled definition member
    · exact lateCompiled definition member

theorem push {before after : Array Definition} (extension : Extends before after)
    {definition : Definition} (compiled : definition.IsCompiled) :
    Extends before (after.push definition) := by
  refine extension.trans ⟨[definition], Array.toList_push, ?_⟩
  intro other member
  rw [List.mem_singleton.mp member]
  exact compiled

end Extends

theorem compileBody_eq_ok_iff {sourceName : Option String} {kind : BodyKind} {stmts : List Stmt}
    {functions result : Array Definition} {code : Code} :
    compileBody sourceName kind stmts functions = .ok (code, result) ↔
      ∃ steps state, Yields (layStmts sourceName 0 none stmts) ⟨functions, 0⟩ steps state ∧
        assemble sourceName kind stmts steps = .ok code ∧ result = state.functions := by
  have whole : compileBody sourceName kind stmts functions = .ok (code, result) ↔
      ∃ state, Yields (do
          let steps ← layStmts sourceName 0 none stmts
          assemble sourceName kind stmts steps) ⟨functions, 0⟩ code state ∧
        result = state.functions := by
    rw [compileBody_eq_layBody]
    unfold layBody Yields
    dsimp only
    generalize StateT.run _ _ = outcome
    cases outcome with
    | error error => exact iff_of_false nofun nofun
    | ok pair =>
        constructor
        · rintro ⟨⟩
          exact ⟨pair.2, rfl, rfl⟩
        · rintro ⟨state, ⟨⟩, rfl⟩
          rfl
  simp only [whole, yields_bind, yields_lift]
  constructor
  · rintro ⟨state, ⟨steps, _, ran, assembled, rfl⟩, rfl⟩
    exact ⟨steps, state, ran, assembled, rfl⟩
  · rintro ⟨steps, state, ran, assembled, rfl⟩
    exact ⟨state, ⟨steps, state, ran, assembled, rfl⟩, rfl⟩

section

variable {α β : Type} {loops more : Nat}

/-- What laying out a piece with that many loops does to the state. -/
structure Effect (loops : Nat) (before after : LayState) : Prop where
  numbers : after.nextLoop = before.nextLoop + loops
  functions : Extends before.functions after.functions

/-- The computation has that effect whenever it succeeds. -/
def Takes (loops : Nat) (computation : Lay α) : Prop :=
  ∀ before result after, Yields computation before result after → Effect loops before after

namespace Takes

theorem pure (value : α) : Takes 0 (pure value) := by
  intro before result after ran
  obtain ⟨_, rfl⟩ := yields_pure.mp ran
  exact ⟨rfl, .refl _⟩

theorem reject (fault : CompileFault) (line : Nat) :
    Takes loops (Compiler.reject fault line : Lay α) :=
  fun _ _ _ ran => (yields_reject.mp ran).elim

theorem lift (outcome : Except CompileError α) : Takes 0 (liftM outcome : Lay α) := by
  intro before result after ran
  obtain ⟨_, rfl⟩ := yields_lift.mp ran
  exact ⟨rfl, .refl _⟩

theorem bind {first : Lay α} {next : α → Lay β} (start : Takes loops first)
    (rest : ∀ value, Takes more (next value)) : Takes (loops + more) (first >>= next) := by
  intro before result after ran
  obtain ⟨value, middle, opened, ran⟩ := yields_bind.mp ran
  have early := start before value middle opened
  have late := rest value middle result after ran
  exact ⟨by rw [late.numbers, early.numbers, Nat.add_assoc], early.functions.trans late.functions⟩

/-- What comes after a computation that adds no loops. -/
theorem bind_zero {first : Lay α} {next : α → Lay β} (start : Takes 0 first)
    (rest : ∀ value, Takes more (next value)) : Takes more (first >>= next) :=
  Nat.zero_add more ▸ start.bind rest

theorem map {first : Lay α} (start : Takes loops first) (change : α → β) :
    Takes loops (first >>= fun value => Pure.pure (change value)) :=
  start.bind fun value => .pure (change value)

theorem ite {condition : Prop} [Decidable condition] {first second : Lay α}
    (holds : Takes loops first) (fails : Takes loops second) :
    Takes loops (if condition then first else second) := by
  split
  · exact holds
  · exact fails

theorem takeLoop : Takes 1 takeLoop := by
  intro before result after ran
  obtain ⟨_, rfl⟩ := yields_takeLoop.mp ran
  exact ⟨rfl, .refl _⟩

end Takes

end

variable (sourceName : Option String)

mutual

theorem layExpr_takes (expr : Expr) (few : exprFew expr = true) (mode : Mode) (position : Nat) :
    Takes 0 (layExpr sourceName mode position expr) := by
  cases expr with
  | number | text | bool | null | name | self | super => exact .pure _
  | unary op span id operand => exact (layExpr_takes operand few _ _).map _
  | binary left op span id right =>
      rw [exprFew, Bool.and_eq_true] at few
      exact (layExpr_takes left few.1 _ _).bind fun _ => (layExpr_takes right few.2 _ _).map _
  | logic left op span id right =>
      rw [exprFew, Bool.and_eq_true] at few
      exact (layExpr_takes left few.1 _ _).bind fun _ => (layExpr_takes right few.2 _ _).map _
  | chain span id items ops =>
      cases items with
      | nil => exact .pure _
      | cons first rest =>
          rw [exprFew, exprsFew, Bool.and_eq_true] at few
          refine .ite ?_ (.reject _ _)
          exact (layExpr_takes first few.1 _ _).bind fun _ =>
            (layLinks_takes rest few.2 _ _ _).map _
  | group span id inner => exact layExpr_takes inner few _ _
  | list span id items => exact (layExprs_takes items few _).map _
  | map span id entries => exact (layEntries_takes entries few _).map _
  | index span id base index =>
      rw [exprFew, Bool.and_eq_true] at few
      exact (layExpr_takes base few.1 _ _).bind fun _ => (layExpr_takes index few.2 _ _).map _
  | member base field id => exact .ite (.pure _) ((layExpr_takes base few _ _).map _)
  | slice span id base first last =>
      rw [exprFew, Bool.and_eq_true, Bool.and_eq_true] at few
      exact (layExpr_takes base few.1.1 _ _).bind fun _ =>
        (layBound_takes first few.1.2 _).bind fun _ => (layBound_takes last few.2 _).map _
  | call span id callee args =>
      rw [exprFew, Bool.and_eq_true] at few
      have arguments (position : Nat) := layExprs_takes args few.2 position
      have whole (position : Nat) := layExpr_takes callee few.1 .invoke position
      cases callee with
      | name ident =>
          exact .ite (.reject _ _) (.ite ((arguments _).map _) ((arguments _).map _))
      | member base field id =>
          refine .ite (.reject _ _) (.ite ((arguments _).map _) ?_)
          exact (layExpr_takes base few.1 _ _).bind fun _ => (arguments _).map _
      | index span id base index =>
          have inner := few.1
          rw [exprFew, Bool.and_eq_true] at inner
          refine .ite (.reject _ _) ((layExpr_takes base inner.1 _ _).bind_zero fun _ => ?_)
          exact (layExpr_takes index inner.2 _ _).bind fun _ => (arguments _).map _
      | _ => exact .ite (.reject _ _) ((whole _).bind fun _ => (arguments _).map _)
  | reference span id inner => exact layExpr_takes inner few _ _
  | function span id params body =>
      rw [exprFew, Bool.and_eq_true, decide_eq_true_eq] at few
      refine .bind_zero (.lift _) fun parameters before result after ran => ?_
      simp only [yields_bind, yields_get, yields_set, yields_lift, yields_takeFunction,
        yields_pure] at ran
      obtain ⟨outer, _, ⟨rfl, rfl⟩, _, _, rfl, steps, inner, ranBody, finished, _,
        ⟨assembled, rfl⟩, _, _, ⟨rfl, rfl⟩, _, _, rfl, ref, _, ⟨rfl, rfl⟩, rfl, rfl⟩ := ran
      have written := layStmts_takes body few.2 0 none _ _ _ ranBody
      refine ⟨rfl, written.functions.push ?_⟩
      rintro code ⟨⟩
      have compiled := compileBody_eq_ok_iff.mpr ⟨steps, _, ranBody, assembled, rfl⟩
      exact ⟨sourceName, .function, body, _, _, nofun, few, compiled⟩

theorem layLinks_takes (items : List Expr) (few : exprsFew items = true) (failure position : Nat)
    (ops : List BinaryOp) : Takes 0 (layLinks sourceName failure position ops items) := by
  cases items with
  | nil => cases ops <;> exact .pure _
  | cons item rest =>
      cases ops with
      | nil => exact .pure _
      | cons op ops =>
          rw [exprsFew, Bool.and_eq_true] at few
          exact (layExpr_takes item few.1 _ _).bind fun _ =>
            (layLinks_takes rest few.2 _ _ ops).map _

theorem layExprs_takes (items : List Expr) (few : exprsFew items = true) (position : Nat) :
    Takes 0 (layExprs sourceName position items) := by
  cases items with
  | nil => exact .pure _
  | cons item rest =>
      rw [exprsFew, Bool.and_eq_true] at few
      exact (layExpr_takes item few.1 _ _).bind fun _ => (layExprs_takes rest few.2 _).map _

theorem layEntries_takes (entries : List (Expr × Expr)) (few : entriesFew entries = true)
    (position : Nat) : Takes 0 (layEntries sourceName position entries) := by
  cases entries with
  | nil => exact .pure _
  | cons entry rest =>
      obtain ⟨key, value⟩ := entry
      rw [entriesFew, Bool.and_eq_true, Bool.and_eq_true] at few
      exact (layExpr_takes key few.1.1 _ _).bind fun _ =>
        (layExpr_takes value few.1.2 _ _).bind fun _ => (layEntries_takes rest few.2 _).map _

theorem layBound_takes (bound : Option Expr) (few : boundFew bound = true) (position : Nat) :
    Takes 0 (layBound sourceName position bound) := by
  cases bound with
  | none => exact .pure _
  | some bound => exact layExpr_takes bound few _ _

theorem layStmt_takes (stmt : Stmt) (few : stmtFew stmt = true) (position : Nat)
    (loop : Option LoopPlace) :
    Takes (stmtLoops stmt) (layStmt sourceName position loop stmt) := by
  cases stmt with
  | expr id value => exact (layExpr_takes value few _ _).map _
  | assign id target op value =>
      rw [stmtFew, Bool.and_eq_true] at few
      have operand (position : Nat) := layExpr_takes value few.2 .invoke position
      cases target with
      | name ident => cases op <;> exact (operand _).map _
      | member base field id =>
          exact (layExpr_takes base few.1 _ _).bind fun _ => (operand _).map _
      | index span id base index =>
          have inner := few.1
          rw [exprFew, Bool.and_eq_true] at inner
          exact (layExpr_takes base inner.1 _ _).bind fun _ =>
            (layExpr_takes index inner.2 _ _).bind fun _ => (operand _).map _
      | _ => exact .reject _ _
  | ifElse id span condition thenBranch elseBranch =>
      cases elseBranch with
      | none =>
          rw [stmtFew, Bool.and_eq_true] at few
          exact (layExpr_takes condition few.1 _ _).bind_zero fun _ =>
            (layStmts_takes thenBranch few.2 _ _).map _
      | some elseBranch =>
          rw [stmtFew, Bool.and_eq_true, Bool.and_eq_true] at few
          exact (layExpr_takes condition few.1.1 _ _).bind_zero fun _ =>
            (layStmts_takes thenBranch few.1.2 _ _).bind fun _ =>
              (layStmts_takes elseBranch few.2 _ _).map _
  | whileLoop id span condition body =>
      rw [stmtFew, Bool.and_eq_true] at few
      exact (layExpr_takes condition few.1 _ _).bind_zero fun _ =>
        (layStmts_takes body few.2 _ _).map _
  | forLoop id span var iter body =>
      rw [stmtFew, Bool.and_eq_true] at few
      exact Takes.takeLoop.bind fun _ => (layExpr_takes iter few.1 _ _).bind_zero fun _ =>
        (layStmts_takes body few.2 _ _).map _
  | breakLoop id span =>
      rcases loop with _ | ⟨start, stop⟩ | id
      · exact .reject _ _
      · exact .pure _
      · exact .pure _
  | continueLoop id span =>
      rcases loop with _ | ⟨start, stop⟩ | id
      · exact .reject _ _
      · exact .pure _
      · exact .pure _
  | returnValue id span value => exact (layBound_takes value few _).map _

theorem layStmts_takes (stmts : List Stmt) (few : stmtsFew stmts = true) (position : Nat)
    (loop : Option LoopPlace) :
    Takes (stmtsLoops stmts) (layStmts sourceName position loop stmts) := by
  cases stmts with
  | nil => exact .pure _
  | cons stmt rest =>
      rw [stmtsFew, Bool.and_eq_true] at few
      exact (layStmt_takes stmt few.1 _ _).bind fun _ => (layStmts_takes rest few.2 _ _).map _

end

end Compiler

end MiniScript
