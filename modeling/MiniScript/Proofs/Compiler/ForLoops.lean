import MiniScript.Proofs.Compiler.Nodes

/-!
# Where the code of a loop stands

The code of every loop over items stands in the code of its body where the sizes of
what comes before say: an instruction that sets the loop up, one that begins a turn, the
statements, and a jump back. The turns go on until the loop is left at its end. The
loops among its statements have numbers of their own.
-/

namespace MiniScript

namespace Compiler

/-- A loop over items: where the code of the statement starts, the variable, what the loop goes
through, and the statements of a turn. -/
structure ForLoop where
  place : Nat
  var : String
  subject : Expr
  body : List Stmt

namespace ForLoop

/-- The instruction that sets the loop up. -/
def create (loop : ForLoop) : Nat :=
  loop.place + exprSize loop.subject

/-- The instruction that begins a turn. -/
def next (loop : ForLoop) : Nat :=
  loop.create + 1

/-- Where the loop is left. -/
def stop (loop : ForLoop) : Nat :=
  loop.next + 1 + stmtsSize loop.body + 1

def setUp (loop : ForLoop) (id : Nat) : Instr :=
  { op := .createForLoop, first := .int id, second := .name loop.var }

def turn (loop : ForLoop) (id : Nat) : Instr :=
  { op := .iterateForLoop, first := .int id, second := .addr loop.stop }

/-- The code of the turns, when `part` is the code of the statements. -/
def turns (loop : ForLoop) (id : Nat) (part : List Instr) : List Instr :=
  loop.turn id :: (part ++ [jumpTo .jump loop.next])

end ForLoop

mutual

/-- The loops over items in a statement whose code starts at `position`. -/
def stmtForLoops (position : Nat) : Stmt → List ForLoop
  | .ifElse _ _ condition thenBranch none =>
      stmtsForLoops (position + exprSize condition + 1) thenBranch
  | .ifElse _ _ condition thenBranch (some elseBranch) =>
      stmtsForLoops (position + exprSize condition + 1) thenBranch ++
        stmtsForLoops (position + exprSize condition + 1 + stmtsSize thenBranch + 1) elseBranch
  | .whileLoop _ _ condition body => stmtsForLoops (position + exprSize condition + 1) body
  | .forLoop _ _ var subject body =>
      ⟨position, var.name, subject, body⟩ :: stmtsForLoops (position + exprSize subject + 2) body
  | .expr .. => []
  | .assign .. => []
  | .breakLoop .. => []
  | .continueLoop .. => []
  | .returnValue .. => []

def stmtsForLoops (position : Nat) : List Stmt → List ForLoop
  | [] => []
  | stmt :: rest => stmtForLoops position stmt ++ stmtsForLoops (position + stmtSize stmt) rest

end

end Compiler

open Compiler

/-- The instruction neither sets a loop up nor begins a turn of one. -/
def Instr.IsQuiet (instr : Instr) : Prop :=
  instr.op ≠ .createForLoop ∧ instr.op ≠ .iterateForLoop

theorem Instr.IsQuiet.of {instr : Instr}
    (other : (instr.op == .createForLoop || instr.op == .iterateForLoop) = false) :
    instr.IsQuiet := by
  rw [Bool.or_eq_false_iff, beq_eq_false_iff_ne, beq_eq_false_iff_ne] at other
  exact other

/-- The loops that are set up and turned have numbers from `least` on. -/
def NumbersFrom (least : Nat) (instrs : List Instr) : Prop :=
  ∀ instr ∈ instrs, instr.IsQuiet ∨ ∃ id : Nat, instr.first = .int id ∧ least ≤ id

/-- What the code of the statements of a loop with that number is like. -/
structure LoopCode (loop : ForLoop) (id : Nat) (part : List Instr) : Prop where
  small : id < UInt32.size
  length : part.length = stmtsSize loop.body
  numbers : NumbersFrom (id + 1) part
  segment : ∀ outermost, Segment outermost (fun _ _ => False) loop.next (loop.turns id part)
    (.level [⟨id, none⟩]) (some (.level []))

/-- The code of the loop stands at its place in the code from `position` on. -/
def Compiler.ForLoop.Inside (loop : ForLoop) (position : Nat) (instrs : List Instr) : Prop :=
  ∃ id part before after, LoopCode loop id part ∧
    instrs = before ++ loop.setUp id :: loop.turns id part ++ after ∧
      loop.create = position + before.length

theorem Compiler.ForLoop.Inside.within {loop : ForLoop} {position : Nat}
    {before part after : List Instr} (inside : loop.Inside (position + before.length) part) :
    loop.Inside position (before ++ part ++ after) := by
  obtain ⟨id, inner, early, late, code, rfl, place⟩ := inside
  refine ⟨id, inner, before ++ early, late ++ after, code, ?_, ?_⟩
  · simp only [List.append_assoc]
  · rw [place, List.length_append, Nat.add_assoc]

/-- The code from `position` on holds the loops, and all its loops have numbers from `least` on. -/
structure LoopsPlaced (position least : Nat) (loops : List ForLoop) (instrs : List Instr) :
    Prop where
  numbers : NumbersFrom least instrs
  inside : ∀ loop ∈ loops, loop.Inside position instrs

namespace LoopsPlaced

variable {position least more : Nat} {loops first second : List ForLoop}
variable {instrs left right : List Instr} {instr : Instr}

theorem quiet (quiet : ∀ instr ∈ instrs, instr.IsQuiet) : LoopsPlaced position least [] instrs :=
  ⟨fun instr member => Or.inl (quiet instr member), List.forall_mem_nil _⟩

theorem append (front : LoopsPlaced position least first left)
    (back : LoopsPlaced (position + left.length) more second right) (le : least ≤ more) :
    LoopsPlaced position least (first ++ second) (left ++ right) := by
  constructor
  · intro instr member
    rcases List.mem_append.mp member with early | late
    · exact front.numbers instr early
    · refine (back.numbers instr late).imp_right ?_
      rintro ⟨id, operand, above⟩
      exact ⟨id, operand, Nat.le_trans le above⟩
  · intro loop member
    rcases List.mem_append.mp member with early | late
    · have inside : loop.Inside (position + ([] : List Instr).length) left :=
        front.inside loop early
      exact inside.within
    · have whole : loop.Inside position (left ++ right ++ []) := (back.inside loop late).within
      rwa [List.append_nil] at whole

theorem append_quiet (front : LoopsPlaced position least loops left)
    (quiet : ∀ instr ∈ right, instr.IsQuiet) :
    LoopsPlaced position least loops (left ++ right) := by
  have whole := front.append (.quiet quiet) (Nat.le_refl least)
  rwa [List.append_nil] at whole

theorem quiet_append (quiet : ∀ instr ∈ left, instr.IsQuiet)
    (back : LoopsPlaced (position + left.length) least loops right) :
    LoopsPlaced position least loops (left ++ right) :=
  (LoopsPlaced.quiet quiet).append back (Nat.le_refl least)

theorem ifElse {test : List Instr} {op other : Instr} {elseAt : Nat}
    (quietTest : ∀ instr ∈ test, instr.IsQuiet) (quietOp : op.IsQuiet) (quietOther : other.IsQuiet)
    (place : elseAt = position + test.length + 1 + left.length + 1)
    (branch : LoopsPlaced (position + test.length + 1) least first left)
    (alternative : LoopsPlaced elseAt more second right) (le : least ≤ more) :
    LoopsPlaced position least (first ++ second)
      (test ++ [op] ++ left ++ [other] ++ right) := by
  have front : LoopsPlaced position least first (test ++ [op] ++ left) := by
    refine quiet_append (List.forall_mem_append.mpr
      ⟨quietTest, List.forall_mem_singleton.mpr quietOp⟩) ?_
    rwa [List.length_append, List.length_singleton, ← Nat.add_assoc]
  refine (front.append_quiet (List.forall_mem_singleton.mpr quietOther)).append ?_ le
  simp only [List.length_append, List.length_singleton]
  rwa [← Nat.add_assoc, ← Nat.add_assoc, ← Nat.add_assoc, ← place]

theorem whileLoop {test : List Instr} {op back : Instr}
    (quietTest : ∀ instr ∈ test, instr.IsQuiet) (quietOp : op.IsQuiet) (quietBack : back.IsQuiet)
    (body : LoopsPlaced (position + test.length + 1) least loops instrs) :
    LoopsPlaced position least loops (test ++ [op] ++ instrs ++ [back]) := by
  refine append_quiet ?_ (List.forall_mem_singleton.mpr quietBack)
  refine quiet_append (List.forall_mem_append.mpr
    ⟨quietTest, List.forall_mem_singleton.mpr quietOp⟩) ?_
  rwa [List.length_append, List.length_singleton, ← Nat.add_assoc]

theorem forLoop {source part : List Instr} {loop : ForLoop} {id : Nat}
    (quietSource : ∀ instr ∈ source, instr.IsQuiet) (length : source.length = exprSize loop.subject)
    (code : LoopCode loop id part)
    (body : LoopsPlaced (loop.place + exprSize loop.subject + 2) (id + 1) loops part) :
    LoopsPlaced loop.place id (loop :: loops)
      (source ++ [loop.setUp id, loop.turn id] ++ part ++ [jumpTo .jump loop.next]) := by
  have jump : (jumpTo .jump loop.next).IsQuiet := .of rfl
  constructor
  · intro instr member
    simp only [List.mem_append, List.mem_cons, List.not_mem_nil, or_false] at member
    rcases member with ((early | rfl | rfl) | inside) | rfl
    · exact Or.inl (quietSource instr early)
    · exact Or.inr ⟨id, rfl, Nat.le_refl _⟩
    · exact Or.inr ⟨id, rfl, Nat.le_refl _⟩
    · refine (body.numbers instr inside).imp_right ?_
      rintro ⟨other, operand, above⟩
      exact ⟨other, operand, Nat.le_of_succ_le above⟩
    · exact Or.inl jump
  · refine List.forall_mem_cons.mpr ⟨⟨id, part, source, [], code, ?_, ?_⟩, fun inner member => ?_⟩
    · simp only [ForLoop.turns, List.append_assoc, List.cons_append, List.nil_append,
        List.append_nil]
    · rw [ForLoop.create, length]
    · refine Compiler.ForLoop.Inside.within ?_
      rw [List.length_append, length]
      exact body.inside inner member

end LoopsPlaced

namespace Compiler

variable {sourceName : Option String} {position : Nat} {before after : LayState}

theorem quiet_single {instr : Instr} (quiet : instr.IsQuiet) : ∀ other ∈ [instr], other.IsQuiet :=
  List.forall_mem_singleton.mpr quiet

theorem quiet_of_forwards {stop : Nat} {code : List Instr}
    (forwards : Forwards position stop code) : ∀ instr ∈ code, instr.IsQuiet := by
  intro instr member
  obtain ⟨offset, found⟩ := List.mem_iff_getElem?.mp member
  have forward := forwards offset instr found
  exact ⟨forward.op_ne (Or.inl rfl), forward.op_ne (Or.inr (Or.inl rfl))⟩

/-- The code of an expression has no loops over items. -/
theorem layExpr_quiet {mode : Mode} {expr : Expr} {code : List Instr}
    (ran : Yields (layExpr sourceName mode position expr) before code after) :
    ∀ instr ∈ code, instr.IsQuiet :=
  quiet_of_forwards (layExpr_placed expr ran).forward

theorem layBound_quiet {bound : Option Expr} {code : List Instr}
    (ran : Yields (layBound sourceName position bound) before code after) :
    ∀ instr ∈ code, instr.IsQuiet :=
  quiet_of_forwards (layBound_placed bound ran).forward

theorem nameInstr_quiet (mode : Mode) (name : String) : (nameInstr mode name).IsQuiet := by
  unfold nameInstr
  split
  · exact .of rfl
  · cases mode <;> exact .of rfl

theorem beforeStore_quiet (op : Option BinaryOp) : ∀ instr ∈ beforeStore op, instr.IsQuiet := by
  cases op with
  | none => exact List.forall_mem_nil _
  | some op =>
      exact List.forall_mem_cons.mpr ⟨.of rfl, quiet_single (.of rfl)⟩

theorem combine_quiet (op : Option BinaryOp) : ∀ instr ∈ combine op, instr.IsQuiet := by
  cases op with
  | none => exact List.forall_mem_nil _
  | some op => exact quiet_single (.of rfl)

theorem assign_quiet {id : NodeId} {target value : Expr} {op : Option BinaryOp}
    {loop : Option LoopPlace} {steps : List Builder.Step}
    (ran : Yields (layStmt sourceName position loop (.assign id target op value)) before steps
      after) : ∀ instr ∈ Builder.instrsOf steps, instr.IsQuiet := by
  cases target with
  | name ident =>
      cases op with
      | none =>
          simp only [layStmt, yields_bind, yields_pure] at ran
          obtain ⟨code, _, ran, rfl, rfl⟩ := ran
          simp only [instrsOf_emitSteps, List.forall_mem_append]
          exact ⟨layExpr_quiet ran, quiet_single (.of rfl)⟩
      | some op =>
          simp only [layStmt, yields_bind, yields_pure] at ran
          obtain ⟨code, _, ran, rfl, rfl⟩ := ran
          simp only [instrsOf_emitSteps, List.forall_mem_append]
          exact ⟨⟨quiet_single (nameInstr_quiet _ _), layExpr_quiet ran⟩,
            List.forall_mem_cons.mpr ⟨.of rfl, quiet_single (.of rfl)⟩⟩
  | member base field id =>
      simp only [layStmt, yields_bind, yields_pure] at ran
      obtain ⟨target, middle, ranBase, code, _, ran, rfl, rfl⟩ := ran
      simp only [instrsOf_emitSteps, List.forall_mem_append]
      exact ⟨⟨⟨⟨⟨layExpr_quiet ranBase, quiet_single (.of rfl)⟩, beforeStore_quiet op⟩,
        layExpr_quiet ran⟩, combine_quiet op⟩, quiet_single (.of rfl)⟩
  | index span id base index =>
      simp only [layStmt, yields_bind, yields_pure] at ran
      obtain ⟨target, middle, ranBase, key, next, ranIndex, code, _, ran, rfl, rfl⟩ := ran
      simp only [instrsOf_emitSteps, List.forall_mem_append]
      exact ⟨⟨⟨⟨⟨layExpr_quiet ranBase, layExpr_quiet ranIndex⟩, beforeStore_quiet op⟩,
        layExpr_quiet ran⟩, combine_quiet op⟩, quiet_single (.of rfl)⟩
  | _ => simp only [layStmt, yields_reject] at ran

/-- The code of a loop with the code of its statements. -/
theorem WrittenBlock.loopCode {loop : ForLoop} {returns : Bool} {middle : LayState}
    {part : List Instr}
    {id : Nat} (few : after.nextLoop < UInt32.size) (numbers : middle.nextLoop = id + 1)
    (body : WrittenBlock (loop.next + 1) (stmtsSize loop.body) (some (.forLoop id)) returns middle
      after part) (above : NumbersFrom (id + 1) part) : LoopCode loop id part where
  small := Nat.lt_trans (body.number_lt numbers) few
  length := body.length
  numbers := above
  segment outermost := by
    have small : id < UInt32.size := Nat.lt_trans (body.number_lt numbers) few
    have stop : loop.stop = loop.next + 1 + part.length + 1 := by rw [ForLoop.stop, body.length]
    refine Segment.forTurns small (List.not_mem_nil) stop (body.runsOn few ?_ ?_)
    · rw [numbers]
      exact List.forall_mem_singleton.mpr (Nat.lt_succ_self id)
    · exact ⟨loop.next, loop.stop, [], rfl, small, List.not_mem_nil, Places.orAt_new _ _ _,
        Or.inl (Places.orAt_new _ _ _)⟩

mutual

theorem layStmt_loops (stmt : Stmt) {position : Nat} {loop : Option LoopPlace}
    {before after : LayState} {steps : List Builder.Step}
    (ran : Yields (layStmt sourceName position loop stmt) before steps after)
    (few : after.nextLoop < UInt32.size) :
    LoopsPlaced position before.nextLoop (stmtForLoops position stmt) (Builder.instrsOf steps) := by
  cases stmt with
  | expr id value =>
      simp only [layStmt, yields_bind, yields_pure] at ran
      obtain ⟨code, _, ran, rfl, rfl⟩ := ran
      rw [instrsOf_emitSteps, stmtForLoops]
      exact .quiet (List.forall_mem_append.mpr ⟨layExpr_quiet ran, quiet_single (.of rfl)⟩)
  | assign id target op value =>
      rw [stmtForLoops]
      exact .quiet (assign_quiet ran)
  | ifElse id span condition thenBranch elseBranch =>
      cases elseBranch with
      | none =>
          simp only [layStmt, yields_bind, yields_pure] at ran
          obtain ⟨test, middle, ranTest, branch, _, ranBranch, rfl, rfl⟩ := ran
          have written := layExpr_written condition ranTest
          have inner := layStmts_loops thenBranch ranBranch few
          rw [instrsOf_append, instrsOf_emitSteps, stmtForLoops, ← written.length,
            ← written.numbers]
          refine .quiet_append (List.forall_mem_append.mpr
            ⟨layExpr_quiet ranTest, quiet_single (.of rfl)⟩) ?_
          rwa [List.length_append, List.length_singleton, ← Nat.add_assoc]
      | some elseBranch =>
          simp only [layStmt, yields_bind, yields_pure] at ran
          obtain ⟨test, middle, ranTest, branch, next, ranBranch, other, _, ranOther, rfl,
            rfl⟩ := ran
          have written := layExpr_written condition ranTest
          have block := layStmts_written thenBranch ranBranch
          have later := (layStmts_written elseBranch ranOther).numbers
          simp only [instrsOf_append, instrsOf_emitSteps]
          rw [stmtForLoops, ← written.length, ← written.numbers]
          refine .ifElse (layExpr_quiet ranTest) (.of rfl) (.of rfl) ?_
            (layStmts_loops thenBranch ranBranch (Nat.lt_of_le_of_lt later few))
            (layStmts_loops elseBranch ranOther few) block.numbers
          rw [block.length]
  | whileLoop id span condition body =>
      simp only [layStmt, yields_bind, yields_pure] at ran
      obtain ⟨test, middle, ranTest, inner, _, ranBody, rfl, rfl⟩ := ran
      have written := layExpr_written condition ranTest
      simp only [instrsOf_append, instrsOf_emitSteps]
      rw [stmtForLoops, ← written.length, ← written.numbers]
      exact .whileLoop (layExpr_quiet ranTest) (.of rfl) (.of rfl)
        (layStmts_loops body ranBody few)
  | forLoop id span var iter body =>
      simp only [layStmt, yields_bind, yields_takeLoop, yields_pure] at ran
      obtain ⟨_, _, ⟨taken, rfl⟩, source, middle, ranIter, inner, _, ranBody, rfl, rfl⟩ := ran
      have written := layExpr_written iter ranIter
      have numbers : middle.nextLoop = before.nextLoop + 1 := written.numbers
      have block := layStmts_written body ranBody
      have small : before.nextLoop < UInt32.size := Nat.lt_trans (block.number_lt numbers) few
      rw [Nat.mod_eq_of_lt small] at taken
      subst taken
      have loops := layStmts_loops body ranBody few
      rw [numbers, written.length] at loops
      simp only [instrsOf_append, instrsOf_emitSteps]
      rw [written.length] at block ⊢
      rw [stmtForLoops]
      have code : LoopCode ⟨position, var.name, iter, body⟩ before.nextLoop
          (Builder.instrsOf inner) := block.loopCode few numbers loops.numbers
      exact .forLoop (layExpr_quiet ranIter) written.length code loops
  | breakLoop id span =>
      rw [stmtForLoops]
      rcases loop with _ | ⟨start, stop⟩ | id
      · simp only [layStmt, yields_reject] at ran
      · simp only [layStmt, yields_pure] at ran
        obtain ⟨rfl, rfl⟩ := ran
        exact .quiet (quiet_single (.of rfl))
      · simp only [layStmt, yields_pure] at ran
        obtain ⟨rfl, rfl⟩ := ran
        exact .quiet (quiet_single (.of rfl))
  | continueLoop id span =>
      rw [stmtForLoops]
      rcases loop with _ | ⟨start, stop⟩ | id
      · simp only [layStmt, yields_reject] at ran
      · simp only [layStmt, yields_pure] at ran
        obtain ⟨rfl, rfl⟩ := ran
        exact .quiet (quiet_single (.of rfl))
      · simp only [layStmt, yields_pure] at ran
        obtain ⟨rfl, rfl⟩ := ran
        exact .quiet (quiet_single (.of rfl))
  | returnValue id span value =>
      simp only [layStmt, yields_bind, yields_pure] at ran
      obtain ⟨code, _, ran, rfl, rfl⟩ := ran
      rw [instrsOf_emitSteps, stmtForLoops]
      exact .quiet (List.forall_mem_append.mpr
        ⟨layBound_quiet ran, quiet_single (.of rfl)⟩)

theorem layStmts_loops (stmts : List Stmt) {position : Nat} {loop : Option LoopPlace}
    {before after : LayState} {steps : List Builder.Step}
    (ran : Yields (layStmts sourceName position loop stmts) before steps after)
    (few : after.nextLoop < UInt32.size) :
    LoopsPlaced position before.nextLoop (stmtsForLoops position stmts)
      (Builder.instrsOf steps) := by
  cases stmts with
  | nil =>
      simp only [layStmts, yields_pure] at ran
      obtain ⟨rfl, rfl⟩ := ran
      rw [stmtsForLoops]
      exact .quiet (List.forall_mem_nil _)
  | cons stmt rest =>
      simp only [layStmts, yields_bind, yields_pure] at ran
      obtain ⟨first, middle, ranStmt, more, _, ranRest, rfl, rfl⟩ := ran
      have block := layStmt_written stmt ranStmt
      have tail := layStmts_loops rest ranRest few
      have later := (layStmts_written rest ranRest).numbers
      rw [← block.length] at tail
      rw [instrsOf_bracket, stmtsForLoops, ← block.length]
      exact (layStmt_loops stmt ranStmt (Nat.lt_of_le_of_lt later few)).append tail block.numbers

end

/-- The code of every loop over items of a body stands in the code of the body. -/
theorem compileBody_loops {kind : BodyKind} {stmts : List Stmt}
    {functions result : Array Definition} {code : Code} (few : FewLoops stmts)
    (compiled : compileBody sourceName kind stmts functions = .ok (code, result)) :
    ∀ loop ∈ stmtsForLoops 0 stmts, loop.Inside 0 code.instrs.toList := by
  intro loop member
  obtain ⟨steps, state, ran, same, _⟩ := compileBody_steps compiled
  have inside : loop.Inside (0 + ([] : List Instr).length) (Builder.instrsOf steps) :=
    (layStmts_loops stmts ran (layStmts_few few ran)).inside loop member
  rw [same]
  exact inside.within

end Compiler

end MiniScript
