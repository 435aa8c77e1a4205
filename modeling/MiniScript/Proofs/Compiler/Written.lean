import MiniScript.Proofs.Code.Control
import MiniScript.Proofs.Compiler.Yields

/-!
# Pieces of code

What laying out each part of a tree comes to: the code of an expression leaves one
operand, the links of a chain keep one, and a statement leaves none and may go to the
start and the end of the loop around it, if the numbers of the loops have not run
out. Code is as long as its size says and holds no label. Each way of putting pieces
together is one lemma.
-/

namespace MiniScript

open Compiler

theorem Instr.Straight.isPlain {instr : Instr} {taken put : Nat}
    (moves : instr.Straight taken put) : instr.IsPlain := by
  cases moves <;> exact ⟨rfl, rfl⟩

namespace Compiler

/-- What laying out expressions comes to: code that leaves `count` operands and has a known size. -/
structure Written (position count size : Nat) (before after : LayState) (code : List Instr) :
    Prop where
  length : code.length = size
  plain : ∀ instr ∈ code, instr.IsPlain
  pushes : Pushes position code count
  numbers : after.nextLoop = before.nextLoop

namespace Written

variable {position first second size more : Nat} {before middle after state : LayState}
variable {code left right : List Instr} {instr : Instr}

theorem nil : Written position 0 0 state state [] where
  length := rfl
  plain _ member := nomatch member
  pushes := .nil
  numbers := rfl

theorem append (start : Written position first size before middle left)
    (next : Written (position + left.length) second more middle after right) :
    Written position (first + second) (size + more) before after (left ++ right) where
  length := by rw [List.length_append, start.length, next.length]
  plain := List.forall_mem_append.mpr ⟨start.plain, next.plain⟩
  pushes := start.pushes.append next.pushes
  numbers := next.numbers.trans start.numbers

/-- An instruction above some of the operands. -/
theorem applyAbove {rest taken put : Nat}
    (start : Written position (rest + taken) size before after code)
    (moves : instr.Straight taken put) :
    Written position (rest + put) (size + 1) before after (code ++ [instr]) where
  length := by rw [List.length_append, start.length, List.length_singleton]
  plain := List.forall_mem_append.mpr ⟨start.plain, List.forall_mem_singleton.mpr moves.isPlain⟩
  pushes := start.pushes.applyAbove moves
  numbers := start.numbers

/-- An instruction that takes all the operands. -/
theorem apply {put : Nat} (start : Written position first size before after code)
    (moves : instr.Straight first put) :
    Written position put (size + 1) before after (code ++ [instr]) := by
  have above : Written position (0 + first) size before after code := by
    rw [Nat.zero_add]
    exact start
  have result := above.applyAbove moves
  rw [Nat.zero_add] at result
  exact result

theorem single (moves : instr.Straight 0 1) : Written position 1 1 state state [instr] :=
  nil.apply moves

theorem logic {op : Opcode} (branches : op = .jumpIfFalse ∨ op = .jumpIfTrue) (short full : Value)
    {shortAt : Nat} (place : shortAt = position + left.length + right.length + 4)
    (start : Written position 1 size before middle left)
    (next : Written (position + left.length + 1) 1 more middle after right) :
    Written position 1 (size + more + 5) before after
      (left ++ [jumpTo op shortAt] ++ right ++ [jumpTo op shortAt] ++
        [pushValue full, jumpTo .jump (shortAt + 1), pushValue short]) where
  length := by
    simp only [List.length_append, List.length_cons, List.length_nil, start.length, next.length]
    omega
  plain := by
    simp only [List.forall_mem_append, List.forall_mem_cons, List.not_mem_nil, false_implies,
      implies_true, and_true]
    exact ⟨⟨⟨⟨start.plain, rfl, rfl⟩, next.plain⟩, rfl, rfl⟩, ⟨rfl, rfl⟩, ⟨rfl, rfl⟩, rfl, rfl⟩
  pushes := .logic branches short full place start.pushes next.pushes
  numbers := next.numbers.trans start.numbers

end Written

/-- What laying out the links of a comparison chain comes to. -/
structure WrittenLinks (failure position size : Nat) (before after : LayState) (code : List Instr) :
    Prop where
  length : code.length = size
  plain : ∀ instr ∈ code, instr.IsPlain
  links : Links failure position code
  numbers : after.nextLoop = before.nextLoop

theorem linkInstrs_length (op : BinaryOp) (isLast : Bool) (failure : Nat) :
    (linkInstrs op isLast failure).length = if isLast then 1 else 2 := by
  cases isLast <;> rfl

theorem linkInstrs_plain (op : BinaryOp) (isLast : Bool) (failure : Nat) :
    ∀ instr ∈ linkInstrs op isLast failure, instr.IsPlain := by
  cases isLast with
  | true => exact List.forall_mem_singleton.mpr ⟨rfl, rfl⟩
  | false =>
      exact List.forall_mem_cons.mpr ⟨⟨rfl, rfl⟩, List.forall_mem_singleton.mpr ⟨rfl, rfl⟩⟩

namespace WrittenLinks

variable {failure position size more : Nat} {before middle after state : LayState}
variable {code links : List Instr}

theorem nil : WrittenLinks failure position 0 state state [] where
  length := rfl
  plain _ member := nomatch member
  links := .nil
  numbers := rfl

theorem cons (op : BinaryOp) (isLast : Bool) (item : Written position 1 size before middle code)
    (rest : WrittenLinks failure
      (position + (code ++ linkInstrs op isLast failure).length) more middle after links) :
    WrittenLinks failure position (size + (if isLast then 1 else 2) + more) before after
      (code ++ linkInstrs op isLast failure ++ links) where
  length := by
    rw [List.length_append, List.length_append, item.length, rest.length, linkInstrs_length]
  plain := List.forall_mem_append.mpr
    ⟨List.forall_mem_append.mpr ⟨item.plain, linkInstrs_plain op isLast failure⟩, rest.plain⟩
  links := (Links.compare op isLast item.pushes).append rest.links
  numbers := rest.numbers.trans item.numbers

theorem chain (first : Written position 1 size before middle code)
    (place : failure = position + code.length + more + 1)
    (rest : WrittenLinks failure (position + code.length) more middle after links) :
    Written position 1 (size + more + 3) before after
      (code ++ links ++
        [jumpTo .jump (failure + 2), { op := .pop }, pushValue (.truth false)]) where
  length := by
    simp only [List.length_append, List.length_cons, List.length_nil, first.length, rest.length]
  plain := by
    simp only [List.forall_mem_append, List.forall_mem_cons, List.not_mem_nil, false_implies,
      implies_true, and_true]
    exact ⟨⟨first.plain, rest.plain⟩, ⟨rfl, rfl⟩, ⟨rfl, rfl⟩, rfl, rfl⟩
  pushes := Links.chain first.pushes (by rw [rest.length]; exact place) rest.links
  numbers := rest.numbers.trans first.numbers

end WrittenLinks

/-- Where `break` and `continue` lead to in the loop around a statement. -/
def LoopExits (loops : List OpenLoop) (exits : Places) : Option LoopPlace → Prop
  | none => True
  | some (.whileLoop start stop) => exits start (.level loops) ∧ exits stop (.level loops)
  | some (.forLoop id) =>
      ∃ start stop rest, loops = ⟨id, some (start, stop)⟩ :: rest ∧ id < UInt32.size ∧
        id ∉ rest.map (·.id) ∧ exits start (.level (⟨id, none⟩ :: rest)) ∧
          exits stop (.level rest)

/-- What a statement that starts without operands leaves at its end. Only at the outermost level
does the code go on after a `return`. -/
def afterBlock (returns outermost : Bool) (loops : List OpenLoop) : Option Slot :=
  if returns && !outermost then none else some (.level loops)

/-- What laying out statements comes to. The numbers of the running loops are below those that the
statements will use. -/
structure WrittenBlock (position size : Nat) (loop : Option LoopPlace) (returns : Bool)
    (before after : LayState) (code : List Instr) : Prop where
  length : code.length = size
  plain : ∀ instr ∈ code, instr.IsPlain
  numbers : before.nextLoop ≤ after.nextLoop
  segment : after.nextLoop < UInt32.size → ∀ outermost exits loops,
    (∀ running ∈ loops, running.id < before.nextLoop) → LoopExits loops exits loop →
      Segment outermost exits position code (.level loops) (afterBlock returns outermost loops)

namespace WrittenBlock

variable {position size more test : Nat} {loop : Option LoopPlace} {returns : Bool}
variable {before middle after final state : LayState} {code left right rest : List Instr}

/-- The number of the loop around statements comes before all that they leave. -/
theorem number_lt (block : WrittenBlock position size loop returns before after code) {id : Nat}
    (taken : before.nextLoop = id + 1) : id < after.nextLoop := by
  rw [← Nat.succ_le_iff, Nat.succ_eq_add_one, ← taken]
  exact block.numbers

/-- In any case the code may be taken to run on to its end. -/
theorem runsOn (block : WrittenBlock position size loop returns before after code)
    (few : after.nextLoop < UInt32.size) {outermost : Bool} {exits : Places} {loops : List OpenLoop}
    (below : ∀ running ∈ loops, running.id < before.nextLoop)
    (known : LoopExits loops exits loop) :
    Segment outermost exits position code (.level loops) (some (.level loops)) := by
  have segment := block.segment few outermost exits loops below known
  unfold afterBlock at segment
  split at segment
  · exact segment.orAfter
  · exact segment

theorem nil : WrittenBlock position 0 loop false state state [] where
  length := rfl
  plain _ member := nomatch member
  numbers := Nat.le_refl _
  segment _ _ _ _ _ _ := .nil

theorem append (start : WrittenBlock position size loop returns before middle left)
    {returns' : Bool}
    (next : WrittenBlock (position + size) more loop returns' middle after right) :
    WrittenBlock position (size + more) loop returns' before after (left ++ right) where
  length := by rw [List.length_append, start.length, next.length]
  plain := List.forall_mem_append.mpr ⟨start.plain, next.plain⟩
  numbers := Nat.le_trans start.numbers next.numbers
  segment few outermost exits loops below known := by
    refine (start.runsOn (Nat.lt_of_le_of_lt next.numbers few) below known).append ?_
    rw [start.length]
    exact next.segment few outermost exits loops
      (fun running member => Nat.lt_of_lt_of_le (below running member) start.numbers) known

/-- Operands and an instruction that takes them all. -/
theorem ofWritten {count : Nat} {instr : Instr}
    (operands : Written position count size before after code) (moves : instr.Straight count 0) :
    WrittenBlock position (size + 1) loop false before after (code ++ [instr]) where
  length := by rw [List.length_append, operands.length, List.length_singleton]
  plain := List.forall_mem_append.mpr ⟨operands.plain, List.forall_mem_singleton.mpr moves.isPlain⟩
  numbers := Nat.le_of_eq operands.numbers.symm
  segment _ outermost exits loops _ _ := (operands.pushes.apply moves) outermost exits 0 loops

/-- A `return` with its operand. -/
theorem ofReturn (operand : Written position 1 size before after code) :
    WrittenBlock position (size + 1) loop true before after (code ++ [{ op := .return }]) where
  length := by rw [List.length_append, operand.length, List.length_singleton]
  plain := List.forall_mem_append.mpr
    ⟨operand.plain, List.forall_mem_singleton.mpr ⟨rfl, rfl⟩⟩
  numbers := Nat.le_of_eq operand.numbers.symm
  segment _ outermost exits loops _ _ := by
    refine (operand.pushes outermost exits 0 loops).append (.single ?_)
    cases outermost with
    | false => exact .leave rfl
    | true => exact .drop rfl (Or.inr ⟨rfl, rfl⟩)

/-- A jump out of the loop around it, or back to its start. -/
theorem ofExit {instr : Instr} (isPlain : instr.IsPlain)
    (accepts : ∀ outermost exits loops, LoopExits loops exits loop →
      Accepts outermost exits position instr (.level loops)) :
    WrittenBlock position 1 loop false state state [instr] where
  length := rfl
  plain := List.forall_mem_singleton.mpr isPlain
  numbers := Nat.le_refl _
  segment _ outermost exits loops _ known :=
    .single ((accepts outermost exits loops known).mono fun _ _ => Or.inl)

theorem ifThen {stop : Nat} (condition : Written position 1 size before middle code)
    (place : stop = position + size + 1 + more)
    (branch : WrittenBlock (position + size + 1) more loop returns middle after left) :
    WrittenBlock position (size + 1 + more) loop false before after
      (code ++ [jumpTo .jumpIfFalse stop] ++ left) where
  length := by
    rw [List.length_append, List.length_append, condition.length, branch.length,
      List.length_singleton]
  plain := List.forall_mem_append.mpr ⟨List.forall_mem_append.mpr
    ⟨condition.plain, List.forall_mem_singleton.mpr ⟨rfl, rfl⟩⟩, branch.plain⟩
  numbers := by
    rw [← condition.numbers]
    exact branch.numbers
  segment few outermost exits loops below known := by
    rw [← condition.numbers] at below
    refine Segment.ifThen condition.pushes ?_ ?_
    · rw [condition.length, branch.length]
      exact place
    · rw [condition.length]
      exact branch.runsOn few below known

theorem ifElse {stop elseAt others : Nat} {returns' : Bool}
    (condition : Written position 1 size before middle code)
    (elsePlace : elseAt = position + size + 1 + more + 1) (place : stop = elseAt + others)
    (branch : WrittenBlock (position + size + 1) more loop returns middle after left)
    (other : WrittenBlock elseAt others loop returns' after final right) :
    WrittenBlock position (size + 1 + more + 1 + others) loop false before final
      (code ++ [jumpTo .jumpIfFalse elseAt] ++ left ++ [jumpTo .jump stop] ++ right) where
  length := by
    simp only [List.length_append, List.length_singleton, condition.length, branch.length,
      other.length]
  plain := by
    have jumps : ∀ op target, (jumpTo op target).IsPlain := fun _ _ => ⟨rfl, rfl⟩
    simp only [List.forall_mem_append, List.forall_mem_singleton]
    exact ⟨⟨⟨⟨condition.plain, jumps _ _⟩, branch.plain⟩, jumps _ _⟩, other.plain⟩
  numbers := by
    rw [← condition.numbers]
    exact Nat.le_trans branch.numbers other.numbers
  segment few outermost exits loops below known := by
    rw [← condition.numbers] at below
    refine Segment.ifElse condition.pushes ?_ ?_ ?_ ?_
    · rw [condition.length, branch.length]
      exact elsePlace
    · rw [other.length]
      exact place
    · rw [condition.length]
      exact branch.runsOn (Nat.lt_of_le_of_lt other.numbers few) below known
    · exact other.runsOn few
        (fun running member => Nat.lt_of_lt_of_le (below running member) branch.numbers) known

theorem whileLoop {stop : Nat} (condition : Written position 1 size before middle code)
    (place : stop = position + size + 1 + more + 1)
    (body : WrittenBlock (position + size + 1) more (some (.whileLoop position stop)) returns
      middle after left) :
    WrittenBlock position (size + 1 + more + 1) loop false before after
      (code ++ [jumpTo .jumpIfFalse stop] ++ left ++ [jumpTo .jump position]) where
  length := by
    simp only [List.length_append, List.length_singleton, condition.length, body.length]
  plain := by
    have jumps : ∀ op target, (jumpTo op target).IsPlain := fun _ _ => ⟨rfl, rfl⟩
    simp only [List.forall_mem_append, List.forall_mem_singleton]
    exact ⟨⟨⟨condition.plain, jumps _ _⟩, body.plain⟩, jumps _ _⟩
  numbers := by
    rw [← condition.numbers]
    exact body.numbers
  segment few outermost exits loops below _ := by
    rw [← condition.numbers] at below
    refine Segment.whileLoop condition.pushes ?_ ?_
    · rw [condition.length, body.length]
      exact place
    · rw [condition.length]
      exact body.runsOn few below ⟨Places.orAt_new _ _ _, Or.inl (Places.orAt_new _ _ _)⟩

theorem forLoop {next stop id : Nat} {var : String} (number : id = before.nextLoop % UInt32.size)
    (subject : Written position 1 size { before with nextLoop := before.nextLoop + 1 } middle code)
    (nextPlace : next = position + size + 1) (place : stop = next + 1 + more + 1)
    (body : WrittenBlock (next + 1) more (some (.forLoop id)) returns middle after left) :
    WrittenBlock position (size + 2 + more + 1) loop false before after
      (code ++ [{ op := .createForLoop, first := .int id, second := .name var },
        { op := .iterateForLoop, first := .int id, second := .addr stop }] ++ left ++
        [jumpTo .jump next]) where
  length := by
    simp only [List.length_append, List.length_cons, List.length_nil, subject.length, body.length]
  plain := by
    simp only [List.forall_mem_append, List.forall_mem_cons, List.not_mem_nil, false_implies,
      implies_true, and_true]
    exact ⟨⟨⟨subject.plain, ⟨rfl, rfl⟩, rfl, rfl⟩, body.plain⟩, rfl, rfl⟩
  numbers := Nat.le_trans (Nat.le_trans (Nat.le_succ _) (Nat.le_of_eq subject.numbers.symm))
    body.numbers
  segment few outermost exits loops below _ := by
    have small : before.nextLoop < UInt32.size := Nat.lt_trans (body.number_lt subject.numbers) few
    obtain rfl : id = before.nextLoop := number.trans (Nat.mod_eq_of_lt small)
    have fresh : before.nextLoop ∉ loops.map (·.id) := by
      intro member
      obtain ⟨running, present, same⟩ := List.mem_map.mp member
      exact absurd (below running present) (same ▸ Nat.lt_irrefl _)
    refine Segment.forLoop small fresh subject.pushes ?_ ?_ ?_
    · rw [subject.length]
      exact nextPlace
    · rw [body.length]
      exact place
    · refine body.runsOn few ?_ ⟨next, stop, loops, rfl, small, fresh, Places.orAt_new _ _ _,
        Or.inl (Places.orAt_new _ _ _)⟩
      -- The loop that has just begun took the number before the next one.
      rw [subject.numbers]
      refine List.forall_mem_cons.mpr ⟨Nat.lt_succ_self _, fun running member => ?_⟩
      exact Nat.lt_succ_of_lt (below running member)

end WrittenBlock

end Compiler

end MiniScript
