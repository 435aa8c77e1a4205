import MiniScript.Proofs.Compiler.Bodies
import MiniScript.Proofs.Evaluation.Control
import MiniScript.Library.Install

/-!
# Compiled code does what the tree means

By recursion on the tree: the code of an expression follows its evaluation and leaves
the value as an operand, and the code of a statement leads to where the way it ends
says. A program that can be evaluated is therefore run to the same end, with the same
heap, or to the same error.
-/

namespace MiniScript

open Compiler

namespace Evaluation

variable {σ : Type} {scope : ScopeRef}

theorem exprs_length (items : List Expr) {values : List Value}
    (gives : Gives (exprs (σ := σ) scope items) values) : values.length = items.length := by
  induction items generalizing values with
  | nil =>
      rw [exprs] at gives
      rw [gives_pure gives]
      rfl
  | cons item rest ih =>
      rw [exprs] at gives
      obtain ⟨value, _, gives⟩ := gives_bind gives
      obtain ⟨more, known, gives⟩ := gives_bind gives
      rw [gives_pure gives, List.length_cons, List.length_cons, ih known]

theorem entries_length (pairs : List (Expr × Expr)) {values : List (Value × Value)}
    (gives : Gives (entries (σ := σ) scope pairs) values) : values.length = pairs.length := by
  induction pairs generalizing values with
  | nil =>
      rw [entries] at gives
      rw [gives_pure gives]
      rfl
  | cons pair rest ih =>
      obtain ⟨key, value⟩ := pair
      rw [entries] at gives
      obtain ⟨first, _, gives⟩ := gives_bind gives
      obtain ⟨second, _, gives⟩ := gives_bind gives
      obtain ⟨more, known, gives⟩ := gives_bind gives
      rw [gives_pure gives, List.length_cons, List.length_cons, ih known]

end Evaluation

namespace Setting

variable {σ : Type} {setting : Setting σ} {sourceName : Option String}

mutual

/-- The code of an expression leaves its value above the operands that were there. -/
theorem layExpr_follows (expr : Expr) {position : Nat} {before after : LayState}
    {code : List Instr}
    (ran : Yields (layExpr sourceName .invoke position expr) before code after)
    (held : setting.Holds position code) (stack : List Value) (loops : List LoopState) :
    setting.Follows ⟨position, stack, loops⟩ (.expr setting.scope expr)
      fun value => ⟨position + code.length, value :: stack, loops⟩ := by
  cases expr with
  | number | text | bool | null =>
      simp only [layExpr, yields_pure] at ran
      obtain ⟨rfl, rfl⟩ := ran
      rw [Evaluation.expr]
      exact follows_literal _ (holds_cons.mp held).1
  | name ident =>
      simp only [layExpr, yields_pure] at ran
      obtain ⟨rfl, rfl⟩ := ran
      rw [Evaluation.expr]
      exact follows_name ident.name (holds_cons.mp held).1
  | self =>
      simp only [layExpr, yields_pure] at ran
      obtain ⟨rfl, rfl⟩ := ran
      rw [Evaluation.expr]
      exact follows_receiver (holds_cons.mp held).1
  | super =>
      rw [Evaluation.expr]
      exact .outside
  | unary op span id operand =>
      simp only [layExpr, yields_bind, yields_pure] at ran
      obtain ⟨inner, middle, ran, rfl, rfl⟩ := ran
      simp only [holds_append, holds_cons, holds_nil, and_true] at held
      rw [Evaluation.expr, List.length_append, ← Nat.add_assoc]
      refine (layExpr_follows operand ran held.1 stack loops).bind fun value _ => ?_
      exact follows_unary op value held.2
  | binary left op span id right =>
      simp only [layExpr, yields_bind, yields_pure] at ran
      obtain ⟨first, middle, ranLeft, second, last, ranRight, rfl, rfl⟩ := ran
      simp only [holds_append, holds_cons, holds_nil, and_true, List.length_append,
        ← Nat.add_assoc] at held ⊢
      obtain ⟨⟨heldLeft, heldRight⟩, fetched⟩ := held
      rw [Evaluation.expr]
      refine (layExpr_follows left ranLeft heldLeft stack loops).bind fun value _ => ?_
      refine (layExpr_follows right ranRight heldRight (value :: stack) loops).bind ?_
      exact fun other _ => follows_binary op value other fetched
  | logic left op span id right =>
      simp only [layExpr, yields_bind, yields_pure] at ran
      obtain ⟨first, middle, ranLeft, second, last, ranRight, rfl, rfl⟩ := ran
      simp only [holds_append, holds_cons, holds_nil, and_true, List.length_append,
        ← Nat.add_assoc] at held ⊢
      obtain ⟨⟨⟨⟨heldLeft, decides⟩, heldRight⟩, decidesToo⟩, full, skip, short⟩ := held
      rw [Evaluation.expr]
      refine follows_logic op (layExpr_follows left ranLeft heldLeft stack loops) decides
        (layExpr_follows right ranRight heldRight stack loops) decidesToo full skip short ?_
      rw [List.length_singleton]
      omega
  | chain span id items ops =>
      cases items with
      | nil =>
          simp only [layExpr, yields_pure] at ran
          obtain ⟨rfl, rfl⟩ := ran
          rw [Evaluation.expr]
          exact follows_literal _ (holds_cons.mp held).1
      | cons first rest =>
          simp only [layExpr, yields_ite, yields_bind, yields_pure, yields_reject, and_false,
            or_false] at ran
          obtain ⟨same, head, middle, ranHead, links, last, ranLinks, rfl, rfl⟩ := ran
          have length := (layLinks_written rest (by rw [List.length_map, same]) ranLinks).length
          rw [← length] at held ranLinks ⊢
          simp only [holds_append, holds_cons, holds_nil, and_true, List.length_append,
            ← Nat.add_assoc] at held ⊢
          obtain ⟨⟨heldHead, heldLinks⟩, jumped, popped, pushed⟩ := held
          rw [Evaluation.expr]
          refine (layExpr_follows first ranHead heldHead stack loops).bind fun value _ => ?_
          refine (layLinks_follows rest ranLinks heldLinks value stack loops).bind ?_
          rintro ⟨complete, last⟩ _
          cases complete with
          | true => exact (follows_jump jumped).after (.ofPure rfl)
          | false => exact (follows_pop last popped).after (follows_literal _ pushed)
  | group span id inner =>
      simp only [layExpr] at ran
      rw [Evaluation.expr]
      exact layExpr_follows inner ran held stack loops
  | list span id items =>
      simp only [layExpr, yields_bind, yields_pure] at ran
      obtain ⟨inner, middle, ran, rfl, rfl⟩ := ran
      simp only [holds_append, holds_cons, holds_nil, and_true] at held
      rw [Evaluation.expr, List.length_append, ← Nat.add_assoc]
      refine (layExprs_follows items ran held.1 stack loops).bind fun values gives => ?_
      have fetched := held.2
      rw [← Evaluation.exprs_length items gives] at fetched
      exact follows_buildList values fetched
  | map span id pairs =>
      simp only [layExpr, yields_bind, yields_pure] at ran
      obtain ⟨inner, middle, ran, rfl, rfl⟩ := ran
      simp only [holds_append, holds_cons, holds_nil, and_true] at held
      rw [Evaluation.expr, List.length_append, ← Nat.add_assoc]
      refine (layEntries_follows pairs ran held.1 stack loops).bind fun values gives => ?_
      have fetched := held.2
      rw [← Evaluation.entries_length pairs gives] at fetched
      exact follows_buildMap values fetched
  | index span id base index =>
      simp only [layExpr, yields_bind, yields_pure] at ran
      obtain ⟨first, middle, ranBase, second, last, ranIndex, rfl, rfl⟩ := ran
      simp only [holds_append, holds_cons, holds_nil, and_true, List.length_append,
        ← Nat.add_assoc] at held ⊢
      obtain ⟨⟨heldBase, heldIndex⟩, fetched⟩ := held
      rw [Evaluation.expr]
      refine (layExpr_follows base ranBase heldBase stack loops).bind fun subject _ => ?_
      refine (layExpr_follows index ranIndex heldIndex (subject :: stack) loops).bind ?_
      exact fun key _ => follows_callIndex subject key fetched
  | member base field id =>
      simp only [layExpr, yields_ite, yields_bind, yields_pure] at ran
      rw [Evaluation.expr]
      rcases ran with ⟨isSuper, _⟩ | ⟨isOther, inner, middle, ran, rfl, rfl⟩
      · rw [if_pos isSuper]
        exact .outside
      · simp only [holds_append, holds_cons, holds_nil, and_true, List.length_append,
          ← Nat.add_assoc] at held ⊢
        obtain ⟨heldBase, pushed, fetched⟩ := held
        rw [if_neg isOther]
        refine (layExpr_follows base ran heldBase stack loops).bind fun subject _ => ?_
        exact (follows_pushValue _ pushed).after (follows_callIndex subject _ fetched)
  | slice span id base first last =>
      simp only [layExpr, yields_bind, yields_pure] at ran
      obtain ⟨target, middle, ranBase, low, next, ranLow, high, final, ranHigh, rfl, rfl⟩ := ran
      simp only [holds_append, holds_cons, holds_nil, and_true, List.length_append,
        ← Nat.add_assoc] at held ⊢
      obtain ⟨⟨⟨heldBase, heldLow⟩, heldHigh⟩, fetched⟩ := held
      rw [Evaluation.expr]
      refine (layExpr_follows base ranBase heldBase stack loops).bind fun subject _ => ?_
      refine (layBound_follows first ranLow heldLow (subject :: stack) loops).bind ?_
      intro from? _
      refine (layBound_follows last ranHigh heldHigh (from? :: subject :: stack) loops).bind ?_
      intro upTo _
      exact follows_slice subject from? upTo fetched
  | call | reference | function =>
      rw [Evaluation.expr]
      exact .outside

/-- The links of a chain start with the left operand of the first. They end with the value of the
last, or at the failure with the right operand of the link that does not hold. -/
theorem layLinks_follows (items : List Expr) {failure position : Nat} {ops : List BinaryOp}
    {before after : LayState} {code : List Instr}
    (ran : Yields (layLinks sourceName failure position ops items) before code after)
    (held : setting.Holds position code) (left : Value) (stack : List Value)
    (loops : List LoopState) :
    setting.Follows ⟨position, left :: stack, loops⟩ (.links setting.scope left ops items)
      fun reached => ⟨if reached.1 then position + code.length else failure, reached.2 :: stack,
        loops⟩ := by
  cases items with
  | nil =>
      simp only [layLinks, yields_pure] at ran
      obtain ⟨rfl, rfl⟩ := ran
      rw [Evaluation.links]
      · exact .ofPure rfl
      · rintro _ _ _ _ _ ⟨⟩
  | cons item rest =>
      cases ops with
      | nil =>
          simp only [layLinks, yields_pure] at ran
          obtain ⟨rfl, rfl⟩ := ran
          rw [Evaluation.links]
          · exact .ofPure rfl
          · rintro _ _ _ _ ⟨⟩
      | cons op ops =>
          simp only [layLinks, yields_bind, yields_pure] at ran
          obtain ⟨inner, middle, ranItem, links, last, ranRest, rfl, rfl⟩ := ran
          rw [Evaluation.links]
          cases rest with
          | nil =>
              simp only [layLinks, yields_pure] at ranRest
              obtain ⟨rfl, rfl⟩ := ranRest
              simp only [List.isEmpty_nil, linkInstrs, if_true, holds_append, holds_cons, holds_nil,
                and_true, List.append_nil, List.length_append, ← Nat.add_assoc] at held ⊢
              refine (layExpr_follows item ranItem held.1 (left :: stack) loops).bind ?_
              intro right _
              refine (follows_binary op left right held.2).bind fun value _ => ?_
              exact .ofPure rfl
          | cons next rest =>
              simp only [List.isEmpty_cons, linkInstrs, Bool.false_eq_true, if_false, holds_append,
                holds_cons, holds_nil, and_true, List.length_append, ← Nat.add_assoc]
                at held ranRest ⊢
              obtain ⟨⟨heldItem, compared, jumped⟩, heldRest⟩ := held
              refine (layExpr_follows item ranItem heldItem (left :: stack) loops).bind ?_
              intro right _
              refine (follows_compareKeep op left right compared).bind fun value _ => ?_
              refine (follows_jumpIfFalse value jumped).bind fun truthy _ => ?_
              cases truthy with
              | false => exact .ofPure rfl
              | true => exact layLinks_follows (next :: rest) ranRest heldRest right stack loops

theorem layExprs_follows (items : List Expr) {position : Nat} {before after : LayState}
    {code : List Instr} (ran : Yields (layExprs sourceName position items) before code after)
    (held : setting.Holds position code) (stack : List Value) (loops : List LoopState) :
    setting.Follows ⟨position, stack, loops⟩ (.exprs setting.scope items)
      fun values => ⟨position + code.length, values.reverse ++ stack, loops⟩ := by
  cases items with
  | nil =>
      simp only [layExprs, yields_pure] at ran
      obtain ⟨rfl, rfl⟩ := ran
      rw [Evaluation.exprs]
      exact .ofPure rfl
  | cons item rest =>
      simp only [layExprs, yields_bind, yields_pure] at ran
      obtain ⟨first, middle, ranItem, more, last, ranRest, rfl, rfl⟩ := ran
      rw [holds_append] at held
      rw [Evaluation.exprs]
      refine (layExpr_follows item ranItem held.1 stack loops).bind fun value _ => ?_
      refine (layExprs_follows rest ranRest held.2 (value :: stack) loops).bind ?_
      intro values _
      refine .ofPure ?_
      rw [List.length_append, Nat.add_assoc, List.reverse_cons, List.append_assoc]
      rfl

theorem layEntries_follows (pairs : List (Expr × Expr)) {position : Nat}
    {before after : LayState} {code : List Instr}
    (ran : Yields (layEntries sourceName position pairs) before code after)
    (held : setting.Holds position code) (stack : List Value) (loops : List LoopState) :
    setting.Follows ⟨position, stack, loops⟩ (.entries setting.scope pairs)
      fun values => ⟨position + code.length, (flatten values).reverse ++ stack, loops⟩ := by
  cases pairs with
  | nil =>
      simp only [layEntries, yields_pure] at ran
      obtain ⟨rfl, rfl⟩ := ran
      rw [Evaluation.entries]
      exact .ofPure rfl
  | cons pair rest =>
      obtain ⟨key, value⟩ := pair
      simp only [layEntries, yields_bind, yields_pure] at ran
      obtain ⟨first, middle, ranKey, second, next, ranValue, more, last, ranRest, rfl, rfl⟩ := ran
      simp only [holds_append, List.length_append, ← Nat.add_assoc] at held ⊢
      obtain ⟨⟨heldKey, heldValue⟩, heldRest⟩ := held
      rw [Evaluation.entries]
      refine (layExpr_follows key ranKey heldKey stack loops).bind fun key _ => ?_
      refine (layExpr_follows value ranValue heldValue (key :: stack) loops).bind ?_
      intro value _
      refine (layEntries_follows rest ranRest heldRest (value :: key :: stack) loops).bind ?_
      intro values _
      refine .ofPure ?_
      rw [flatten_cons, List.reverse_append, List.append_assoc]
      rfl

theorem layBound_follows (bound : Option Expr) {position : Nat} {before after : LayState}
    {code : List Instr} (ran : Yields (layBound sourceName position bound) before code after)
    (held : setting.Holds position code) (stack : List Value) (loops : List LoopState) :
    setting.Follows ⟨position, stack, loops⟩ (.bound setting.scope bound)
      fun value => ⟨position + code.length, value :: stack, loops⟩ := by
  cases bound with
  | none =>
      simp only [layBound, yields_pure] at ran
      obtain ⟨rfl, rfl⟩ := ran
      rw [Evaluation.bound]
      exact follows_literal _ (holds_cons.mp held).1
  | some bound =>
      simp only [layBound] at ran
      rw [Evaluation.bound]
      exact layExpr_follows bound ran held stack loops

end

variable (rounds : Nat)

mutual

/-- The code of a statement leads to where the way it ends says. The loops that are running have
smaller numbers than those it will use. -/
theorem layStmt_follows (ignores : setting.host.IgnoresClock) (stmt : Stmt) {position : Nat}
    {loop : Option LoopPlace} {before after : LayState} {steps : List Builder.Step}
    (ran : Yields (layStmt sourceName position loop stmt) before steps after)
    (few : after.nextLoop < UInt32.size)
    (held : setting.Holds position (Builder.instrsOf steps)) (stack : List Value)
    {loops : List LoopState} (inside : Inside loop loops)
    (below : ∀ running ∈ loops, running.id < before.nextLoop) :
    setting.Follows ⟨position, stack, loops⟩ (.stmt setting.host setting.scope rounds stmt)
      (setting.leave loop (position + stmtSize stmt) stack loops) := by
  have size := (layStmt_written stmt ran).length
  rw [← size]
  cases stmt with
  | expr id value =>
      simp only [layStmt, yields_bind, yields_pure] at ran
      obtain ⟨code, _, ran, rfl, rfl⟩ := ran
      simp only [instrsOf_emitSteps, holds_append, holds_cons, holds_nil, and_true,
        List.length_append, ← Nat.add_assoc] at held ⊢
      rw [Evaluation.stmt]
      refine (layExpr_follows value ran held.1 stack loops).bind fun value _ => ?_
      exact (follows_pop value held.2).after (.ofPure rfl)
  | assign id target op value =>
      cases target with
      | name ident =>
          cases op with
          | none =>
              simp only [layStmt, yields_bind, yields_pure] at ran
              obtain ⟨code, _, ran, rfl, rfl⟩ := ran
              simp only [instrsOf_emitSteps, holds_append, holds_cons, holds_nil, and_true,
                List.length_append, ← Nat.add_assoc] at held ⊢
              rw [Evaluation.stmt]
              refine (layExpr_follows value ran held.1 stack loops).bind fun new _ => ?_
              exact (follows_assignVar ignores ident.name new held.2).normally
          | some op =>
              simp only [layStmt, yields_bind, yields_pure] at ran
              obtain ⟨code, _, ran, rfl, rfl⟩ := ran
              simp only [instrsOf_emitSteps, holds_append, holds_cons, holds_nil, and_true,
                List.length_append, ← Nat.add_assoc] at held ⊢
              obtain ⟨⟨named, heldValue⟩, applied, assigned⟩ := held
              rw [Evaluation.stmt]
              refine (follows_name ident.name named).bind fun old _ => ?_
              refine (layExpr_follows value ran heldValue (old :: stack) loops).bind ?_
              intro operand _
              refine (follows_binary op old operand applied).bind fun new _ => ?_
              exact (follows_assignVar ignores ident.name new assigned).normally
      | member base field id =>
          simp only [layStmt, yields_bind, yields_pure] at ran
          obtain ⟨target, middle, ranBase, code, _, ran, rfl, rfl⟩ := ran
          simp only [instrsOf_emitSteps, List.append_assoc, holds_append, holds_cons, holds_nil,
            and_true, List.length_append, ← Nat.add_assoc] at held ran ⊢
          obtain ⟨heldBase, pushed, prepared, heldValue, combined, stored⟩ := held
          rw [Evaluation.stmt]
          refine (layExpr_follows base ranBase heldBase stack loops).bind fun subject _ => ?_
          refine (follows_pushValue _ pushed).after ?_
          exact (follows_assignAt ignores op subject (.text field.name) prepared
            (layExpr_follows value ran heldValue · loops) combined stored).normally
      | index span id base index =>
          simp only [layStmt, yields_bind, yields_pure] at ran
          obtain ⟨target, middle, ranBase, key, next, ranIndex, code, _, ran, rfl, rfl⟩ := ran
          simp only [instrsOf_emitSteps, List.append_assoc, holds_append, holds_cons, holds_nil,
            and_true, List.length_append, ← Nat.add_assoc] at held ran ⊢
          obtain ⟨heldBase, heldIndex, prepared, heldValue, combined, stored⟩ := held
          rw [Evaluation.stmt]
          refine (layExpr_follows base ranBase heldBase stack loops).bind fun subject _ => ?_
          refine (layExpr_follows index ranIndex heldIndex (subject :: stack) loops).bind ?_
          intro key _
          exact (follows_assignAt ignores op subject key prepared
            (layExpr_follows value ran heldValue · loops) combined stored).normally
      | _ =>
          simp only [layStmt, yields_reject] at ran
  | ifElse id span condition thenBranch elseBranch =>
      cases elseBranch with
      | none =>
          simp only [layStmt, yields_bind, yields_pure] at ran
          obtain ⟨test, middle, ranTest, branch, _, ranBranch, rfl, rfl⟩ := ran
          have numbers := (layExpr_written condition ranTest).numbers
          have length := (layStmts_written thenBranch ranBranch).length
          simp only [instrsOf_append, instrsOf_emitSteps, holds_append, holds_cons, holds_nil,
            and_true, List.length_append, ← Nat.add_assoc, length] at held ⊢
          obtain ⟨⟨heldTest, jumped⟩, heldBranch⟩ := held
          rw [Evaluation.stmt]
          refine (layExpr_follows condition ranTest heldTest stack loops).bind fun value _ => ?_
          exact follows_ifThen value jumped (layStmts_follows ignores thenBranch ranBranch few
            heldBranch stack inside (numbers ▸ below))
      | some elseBranch =>
          simp only [layStmt, yields_bind, yields_pure] at ran
          obtain ⟨test, middle, ranTest, branch, next, ranBranch, other, _, ranOther, rfl,
            rfl⟩ := ran
          have numbers := (layExpr_written condition ranTest).numbers
          have thenBlock := layStmts_written thenBranch ranBranch
          have elseBlock := layStmts_written elseBranch ranOther
          simp only [instrsOf_append, instrsOf_emitSteps, holds_append, holds_cons, holds_nil,
            and_true, List.length_append, ← Nat.add_assoc, thenBlock.length, elseBlock.length]
            at held ⊢
          obtain ⟨⟨⟨⟨heldTest, jumped⟩, heldBranch⟩, skip⟩, heldOther⟩ := held
          have taken := layStmts_follows ignores thenBranch ranBranch
            (Nat.lt_of_le_of_lt elseBlock.numbers few) heldBranch stack inside (numbers ▸ below)
          have passed := layStmts_follows ignores elseBranch ranOther few heldOther stack inside
            fun running member =>
              Nat.lt_of_lt_of_le (numbers ▸ below running member) thenBlock.numbers
          rw [Evaluation.stmt]
          refine (layExpr_follows condition ranTest heldTest stack loops).bind fun value _ => ?_
          exact follows_ifElse value jumped taken (holds_cons.mp skip).1 passed
  | whileLoop id span condition body =>
      simp only [layStmt, yields_bind, yields_pure] at ran
      obtain ⟨test, middle, ranTest, inner, _, ranBody, rfl, rfl⟩ := ran
      have numbers := (layExpr_written condition ranTest).numbers
      have length := (layStmts_written body ranBody).length
      simp only [instrsOf_append, instrsOf_emitSteps, holds_append, holds_cons, holds_nil,
        and_true, List.length_append, ← Nat.add_assoc, length] at held ⊢
      obtain ⟨⟨⟨heldTest, jumped⟩, heldBody⟩, back⟩ := held
      have again := (layExpr_follows condition ranTest heldTest stack loops).bind
        fun value _ => follows_jumpIfFalse value jumped
      have round := layStmts_follows ignores body ranBody few heldBody stack trivial
        (numbers ▸ below)
      rw [Evaluation.stmt]
      exact (follows_repeatWhile again round back rounds).normally
  | forLoop id span var iter body =>
      simp only [layStmt, yields_bind, yields_takeLoop, yields_pure] at ran
      obtain ⟨id, _, ⟨taken, rfl⟩, source, middle, ranIter, inner, _, ranBody, rfl, rfl⟩ := ran
      have numbers := (layExpr_written iter ranIter).numbers
      have block := layStmts_written body ranBody
      have length := block.length
      have small : before.nextLoop < UInt32.size := Nat.lt_trans (block.number_lt numbers) few
      rw [Nat.mod_eq_of_lt small] at taken
      subst taken
      simp only [instrsOf_append, instrsOf_emitSteps, holds_append, holds_cons, holds_nil,
        and_true, List.length_append, ← Nat.add_assoc, length] at held ⊢
      obtain ⟨⟨⟨heldIter, created, iterated⟩, heldBody⟩, back⟩ := held
      have apart : ∀ running ∈ loops, running.id ≠ before.nextLoop :=
        fun running member => Nat.ne_of_lt (below running member)
      rw [Evaluation.stmt]
      refine (layExpr_follows iter ranIter heldIter stack loops).bind fun subject _ => ?_
      refine (follows_create var.name subject small apart created).bind ?_
      rintro ⟨items, source⟩ _
      refine Follows.normally (follows_forEach ignores small apart ?_ iterated back items.toList _
        rfl rfl rfl rfl)
      intro running number _ _
      refine layStmts_follows ignores body ranBody few heldBody stack ?_ ?_
      · exact ⟨running, loops, rfl, number, small, apart⟩
      · -- The loop that has just begun took the number before the next one.
        rw [numbers]
        refine List.forall_mem_cons.mpr ⟨?_, fun other member => ?_⟩
        · rw [number]
          exact Nat.lt_succ_self _
        · exact Nat.lt_succ_of_lt (below other member)
  | breakLoop id span =>
      rw [Evaluation.stmt]
      rcases loop with _ | ⟨start, stop⟩ | id
      · simp only [layStmt, yields_reject] at ran
      · simp only [layStmt, yields_pure] at ran
        obtain ⟨rfl, rfl⟩ := ran
        exact (follows_jump (holds_cons.mp held).1).after (.ofPure rfl)
      · simp only [layStmt, yields_pure] at ran
        obtain ⟨rfl, rfl⟩ := ran
        obtain ⟨running, rest, rfl, rfl, small, apart⟩ := inside
        exact (follows_break small apart (holds_cons.mp held).1).after (.ofPure rfl)
  | continueLoop id span =>
      rw [Evaluation.stmt]
      rcases loop with _ | ⟨start, stop⟩ | id
      · simp only [layStmt, yields_reject] at ran
      · simp only [layStmt, yields_pure] at ran
        obtain ⟨rfl, rfl⟩ := ran
        exact (follows_jump (holds_cons.mp held).1).after (.ofPure rfl)
      · simp only [layStmt, yields_pure] at ran
        obtain ⟨rfl, rfl⟩ := ran
        obtain ⟨running, rest, rfl, rfl, small, _⟩ := inside
        exact (follows_continue small (holds_cons.mp held).1).after (.ofPure rfl)
  | returnValue id span value =>
      rw [Evaluation.stmt]
      exact .outside

theorem layStmts_follows (ignores : setting.host.IgnoresClock) (stmts : List Stmt)
    {position : Nat} {loop : Option LoopPlace} {before after : LayState}
    {steps : List Builder.Step}
    (ran : Yields (layStmts sourceName position loop stmts) before steps after)
    (few : after.nextLoop < UInt32.size)
    (held : setting.Holds position (Builder.instrsOf steps)) (stack : List Value)
    {loops : List LoopState} (inside : Inside loop loops)
    (below : ∀ running ∈ loops, running.id < before.nextLoop) :
    setting.Follows ⟨position, stack, loops⟩ (.stmts setting.host setting.scope rounds stmts)
      (setting.leave loop (position + stmtsSize stmts) stack loops) := by
  cases stmts with
  | nil =>
      rw [Evaluation.stmts]
      exact .ofPure rfl
  | cons stmt rest =>
      simp only [layStmts, yields_bind, yields_pure] at ran
      obtain ⟨first, middle, ranStmt, more, _, ranRest, rfl, rfl⟩ := ran
      have block := layStmt_written stmt ranStmt
      rw [instrsOf_bracket, holds_append, block.length] at held
      rw [Evaluation.stmts]
      have later := (layStmts_written rest ranRest).numbers
      refine (layStmt_follows ignores stmt ranStmt (Nat.lt_of_le_of_lt later few) held.1 stack
        inside below).bind ?_
      intro signal _
      cases signal with
      | normal =>
          rw [stmtsSize, ← Nat.add_assoc]
          exact layStmts_follows ignores rest ranRest few held.2 stack inside
            fun running member => Nat.lt_of_lt_of_le (below running member) block.numbers
      | broke => exact .ofPure rfl
      | continued => exact .ofPure rfl

end

/-- The code of a program follows the evaluation of its statements, from the start to the end. -/
theorem compileProgram_follows (ignores : setting.host.IgnoresClock) {stmts : List Stmt}
    {functions result : Array Definition} (few : FewLoops stmts)
    (compiled : compileProgram sourceName stmts functions = .ok (setting.code, result)) :
    setting.Follows ⟨0, [], []⟩ (.stmts setting.host setting.scope rounds stmts)
      (setting.leave none setting.code.size [] []) := by
  obtain ⟨steps, state, ran, instrs, _⟩ := compileBody_steps compiled
  have whole : setting.code.instrs.toList = Builder.instrsOf steps := by
    rw [instrs]
    cases endsInReturn stmts with
    | true => exact List.append_nil _
    | false => exact List.append_nil _
  have held : setting.Holds 0 (Builder.instrsOf steps) := by
    intro offset instr found
    rw [← whole, Array.getElem?_toList] at found
    rw [Nat.zero_add]
    exact found
  have size : setting.code.size = 0 + stmtsSize stmts := by
    rw [Nat.zero_add, ← (layStmts_written stmts ran).length, ← whole]
    rfl
  rw [size]
  exact layStmts_follows rounds ignores stmts ran (layStmts_few few ran) held [] trivial nofun

end Setting

theorem Host.silent_ignoresClock {σ : Type} : (Host.silent : Host σ).IgnoresClock :=
  fun _ _ _ _ clock => ⟨clock, rfl⟩

/-- A program that can be evaluated, and that has enough numbers for its loops, is run to the end by
the machine, with the same heap, and fails only where the evaluation does, with the same error. -/
theorem Machine.program_ends_as_evaluated {σ : Type} {host : Host σ} (ignores : host.IgnoresClock)
    {sourceName : Option String} {stmts : List Stmt} {functions result : Array Definition}
    {code : Code} (few : FewLoops stmts)
    (compiled : compileProgram sourceName stmts functions = .ok (code, result))
    {scope : ScopeRef} {rounds : Nat} {world final : World σ}
    {outcome : Except RuntimeError Signal}
    (evaluated : (Evaluation.stmts host scope rounds stmts).Comes world outcome final) :
    ∃ budget clock, ∀ more, Setting.Ends ⟨host, code, scope⟩ outcome (final.setClock clock)
      ((Machine.start code scope).cycles host (budget + more + 1) world) := by
  let setting : Setting σ := ⟨host, code, scope⟩
  have follows : setting.Follows ⟨0, [], []⟩ (.stmts host scope rounds stmts)
      (setting.leave none code.size [] []) :=
    Setting.compileProgram_follows rounds ignores few compiled
  obtain ⟨clock, leads⟩ := follows world outcome final evaluated world.clock
  have beyond : ∀ point, outcome.map (setting.leave none code.size [] []) = .ok point →
      code.size ≤ point.position ∧ point.stack = [] := by
    intro point reached
    cases outcome with
    | ok signal =>
        cases reached
        cases signal with
        | normal | broke | continued => exact ⟨Nat.le_refl _, rfl⟩
    | error error => cases reached
  obtain ⟨budget, ends⟩ := leads.ends beyond (World.poll host)
  refine ⟨budget, clock, fun more => ?_⟩
  -- A machine that has not begun takes its first step as one that is running does.
  have turn := ends more
  refine ⟨turn.finished, turn.world, ?_⟩
  cases outcome with
  | ok signal => exact turn.error
  | error error => exact turn.error

/-- A word is put together letter by letter, in a loop that would be left at an empty word, with a
loop inside that is left at once. -/
def spelling : List Stmt :=
  [.assign 0 (.name ⟨"word", default, 0⟩) none (.text "a" default 0),
    .forLoop 0 default ⟨"letter", default, 0⟩ (.text "bc" default 0)
      [.assign 0 (.name ⟨"word", default, 0⟩) (some .add) (.name ⟨"letter", default, 0⟩),
        .whileLoop 0 default (.name ⟨"letter", default, 0⟩) [.breakLoop 0 default],
        .ifElse 0 default (.name ⟨"word", default, 0⟩) [.continueLoop 0 default] none,
        .breakLoop 0 default]]

theorem Machine.spelling_ends_as_evaluated :
    ∃ code functions final,
      compileProgram none spelling #[] = .ok (code, functions) ∧
      (Evaluation.stmts .silent ⟨0⟩ 1 spelling).Comes (World.initial {} ()) (.ok .normal) final ∧
      final.resolve? ⟨0⟩ "word" = some (.text "abc") ∧
      ∃ budget clock, ∀ more, Setting.Ends ⟨.silent, code, ⟨0⟩⟩ (.ok Signal.normal)
        (final.setClock clock)
        ((Machine.start code ⟨0⟩).cycles .silent (budget + more + 1) (World.initial {} ())) := by
  have isOk : (compileProgram none spelling #[]).isOk = true := by decide +kernel
  have evaluated : ∃ final, (Evaluation.stmts .silent ⟨0⟩ 1 spelling).Comes
      (World.initial {} ()) (.ok .normal) final ∧
        final.resolve? ⟨0⟩ "word" = some (.text "abc") := ⟨_, rfl, rfl⟩
  obtain ⟨⟨code, functions⟩, compiled⟩ := accepted isOk
  obtain ⟨final, comes, spelled⟩ := evaluated
  refine ⟨code, functions, final, compiled, comes, spelled, ?_⟩
  exact Machine.program_ends_as_evaluated Host.silent_ignoresClock (by decide) compiled comes

end MiniScript
