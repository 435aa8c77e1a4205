import MiniScript.Proofs.Code.Layout

/-!
# Layouts of control flow

The shapes of code that the compiler writes for operators that may end early,
for conditions and for loops. Each is a segment if its parts are.
-/

namespace MiniScript

open Compiler

namespace Pushes

variable {position : Nat} {first second : List Instr}

/-- An instruction that takes some of what has been left. -/
theorem applyAbove {instr : Instr} {rest taken put : Nat}
    (before : Pushes position first (rest + taken)) (moves : instr.Straight taken put) :
    Pushes position (first ++ [instr]) (rest + put) := by
  intro outermost exits height loops
  have start := before outermost exits height loops
  rw [← Nat.add_assoc] at start
  rw [← Nat.add_assoc]
  exact start.append (.straight moves (height + rest) loops)

/-- Both operands may end an operator early, with a value of its own. -/
theorem logic {op : Opcode} (branches : op = .jumpIfFalse ∨ op = .jumpIfTrue) (short full : Value)
    {shortAt : Nat} (place : shortAt = position + first.length + second.length + 4)
    (left : Pushes position first 1) (right : Pushes (position + first.length + 1) second 1) :
    Pushes position
      (first ++ [jumpTo op shortAt] ++ second ++ [jumpTo op shortAt] ++
        [pushValue full, jumpTo .jump (shortAt + 1), pushValue short]) 1 := by
  intro outermost exits height loops
  have shape : first ++ [jumpTo op shortAt] ++ second ++ [jumpTo op shortAt] ++
      [pushValue full, jumpTo .jump (shortAt + 1), pushValue short] =
      (first ++ jumpTo op shortAt :: (second ++
        [jumpTo op shortAt, pushValue full, jumpTo .jump (shortAt + 1)])) ++ [pushValue short] := by
    simp only [List.append_assoc, List.cons_append, List.nil_append]
  have seam : shortAt = position + (first ++ jumpTo op shortAt :: (second ++
      [jumpTo op shortAt, pushValue full, jumpTo .jump (shortAt + 1)])).length := by
    simp only [List.length_append, List.length_cons, List.length_nil]
    omega
  rw [shape]
  -- Jumps to the short value and past the whole code stay inside.
  refine Segment.close _ (Segment.append (Segment.close ⟨height, loops⟩ ?_)
    (.straight (.pushValue short) height loops))
  refine (left _ _ height loops).append (Segment.cons ⟨height, loops⟩
    (.branch height branches (Places.orAt_new _ _ _) (Or.inl (Or.inr ⟨seam, rfl⟩))) ?_)
  refine (right _ _ height loops).append (Segment.cons ⟨height, loops⟩
    (.branch height branches (Places.orAt_new _ _ _) (Or.inl (Or.inr ⟨seam, rfl⟩))) ?_)
  refine Segment.cons ⟨height + 1, loops⟩
    (.straight height (.pushValue full) (Places.orAt_new _ _ _)) ?_
  refine Segment.single (.jump (Or.inl (Or.inl (Or.inr ⟨?_, rfl⟩))))
  rw [List.length_append, ← Nat.add_assoc, ← seam]
  rfl

end Pushes

/-- The links of a comparison chain. One operand is there at the start and one at the end; at a link
that fails, the chain is left with one operand. -/
def Links (failure position : Nat) (instrs : List Instr) : Prop :=
  ∀ outermost (exits : Places) height loops, exits failure ⟨height + 1, loops⟩ →
    Segment outermost exits position instrs ⟨height + 1, loops⟩ (some ⟨height + 1, loops⟩)

namespace Links

variable {failure position : Nat} {code links : List Instr}

theorem nil : Links failure position [] :=
  fun _ _ _ _ _ => .nil

/-- The comparison of a link, after its right operand. -/
theorem compare (op : BinaryOp) (isLast : Bool) (right : Pushes position code 1) :
    Links failure position (code ++ linkInstrs op isLast failure) := by
  intro outermost exits height loops away
  refine (right outermost exits (height + 1) loops).append ?_
  cases isLast with
  | true => exact .straight (.binary op) height loops
  | false =>
      refine Segment.cons _ (.straight height (.compareKeep op) (Places.orAt_new _ _ _)) ?_
      exact Segment.single (.branch _ (Or.inl rfl) (Or.inr ⟨rfl, rfl⟩) (Or.inl away))

theorem append (first : Links failure position code)
    (rest : Links failure (position + code.length) links) :
    Links failure position (code ++ links) :=
  fun outermost exits height loops away =>
    (first outermost exits height loops away).append (rest outermost exits height loops away)

/-- A whole chain: a link that fails drops the operand it kept. -/
theorem chain (first : Pushes position code 1)
    (place : failure = position + code.length + links.length + 1)
    (rest : Links failure (position + code.length) links) :
    Pushes position
      (code ++ links ++
        [jumpTo .jump (failure + 2), { op := .pop }, pushValue (.truth false)]) 1 := by
  intro outermost exits height loops
  have shape : code ++ links ++
      [jumpTo .jump (failure + 2), { op := .pop }, pushValue (.truth false)] =
      (code ++ (links ++ [jumpTo .jump (failure + 2)])) ++
        [{ op := .pop }, pushValue (.truth false)] := by
    simp only [List.append_assoc, List.cons_append, List.nil_append]
  have seam : failure = position + (code ++ (links ++ [jumpTo .jump (failure + 2)])).length := by
    simp only [List.length_append, List.length_cons, List.length_nil]
    omega
  rw [shape]
  -- Jumps to the failure and past the whole code stay inside.
  refine Segment.close _ (Segment.append (Segment.close ⟨height + 1, loops⟩ ?_) ?_)
  · refine (first _ _ height loops).append
      ((rest _ _ height loops (Or.inr ⟨seam, rfl⟩)).append ?_)
    refine Segment.single (.jump (Or.inl (Or.inl (Or.inr ⟨?_, rfl⟩))))
    rw [List.length_append, ← Nat.add_assoc, ← seam]
    rfl
  · refine Segment.cons _ (.straight height .pop (Places.orAt_new _ _ _)) ?_
    exact .straight (.pushValue _) height loops

end Links

namespace Segment

variable {outermost : Bool} {exits : Places} {position stop : Nat} {loops : List OpenLoop}
variable {test branch other body : List Instr}

/-- A condition without an alternative. -/
theorem ifThen (condition : Pushes position test 1)
    (place : stop = position + test.length + 1 + branch.length)
    (inner : Segment outermost exits (position + test.length + 1) branch (.level loops)
      (some (.level loops))) :
    Segment outermost exits position (test ++ [jumpTo .jumpIfFalse stop] ++ branch) (.level loops)
      (some (.level loops)) := by
  rw [List.append_assoc, List.singleton_append]
  refine close _ ((condition _ _ 0 loops).append (cons (.level loops)
    (.branch 0 (Or.inl rfl) (Places.orAt_new _ _ _) (Or.inl (Or.inr ⟨?_, rfl⟩)))
    (inner.mono fun _ _ => Or.inl)))
  simp only [List.length_append, List.length_cons]
  omega

/-- A condition with an alternative. -/
theorem ifElse {elseAt : Nat} (condition : Pushes position test 1)
    (elsePlace : elseAt = position + test.length + 1 + branch.length + 1)
    (place : stop = elseAt + other.length)
    (inner : Segment outermost exits (position + test.length + 1) branch (.level loops)
      (some (.level loops)))
    (alternative : Segment outermost exits elseAt other (.level loops) (some (.level loops))) :
    Segment outermost exits position
      (test ++ [jumpTo .jumpIfFalse elseAt] ++ branch ++ [jumpTo .jump stop] ++ other)
      (.level loops) (some (.level loops)) := by
  have shape : test ++ [jumpTo .jumpIfFalse elseAt] ++ branch ++ [jumpTo .jump stop] ++ other =
      (test ++ jumpTo .jumpIfFalse elseAt :: (branch ++ [jumpTo .jump stop])) ++ other := by
    simp only [List.append_assoc, List.cons_append, List.nil_append]
  have seam : elseAt = position +
      (test ++ jumpTo .jumpIfFalse elseAt :: (branch ++ [jumpTo .jump stop])).length := by
    simp only [List.length_append, List.length_cons, List.length_nil]
    omega
  rw [shape]
  refine close _ (append (close (.level loops) ?_)
    (by rw [← seam]; exact alternative.mono fun _ _ => Or.inl))
  refine (condition _ _ 0 loops).append (cons (.level loops)
    (.branch 0 (Or.inl rfl) (Places.orAt_new _ _ _) (Or.inl (Or.inr ⟨seam, rfl⟩))) ?_)
  refine (inner.mono fun _ _ => Or.inl ∘ Or.inl).append (single (.jump ?_))
  refine Or.inl (Or.inl (Or.inr ⟨?_, rfl⟩))
  rw [List.length_append, ← Nat.add_assoc, ← seam]
  exact place

/-- A loop that is left when its condition fails, and whose body may go to its start and its end. -/
theorem whileLoop (condition : Pushes position test 1)
    (place : stop = position + test.length + 1 + body.length + 1)
    (inner : Segment outermost
      ((exits.orAt stop (.level loops)).orAt position (.level loops)) (position + test.length + 1)
      body (.level loops) (some (.level loops))) :
    Segment outermost exits position
      (test ++ [jumpTo .jumpIfFalse stop] ++ body ++ [jumpTo .jump position]) (.level loops)
      (some (.level loops)) := by
  have shape : test ++ [jumpTo .jumpIfFalse stop] ++ body ++ [jumpTo .jump position] =
      test ++ jumpTo .jumpIfFalse stop :: (body ++ [jumpTo .jump position]) := by
    simp only [List.append_assoc, List.cons_append, List.nil_append]
  have seam : stop = position +
      (test ++ jumpTo .jumpIfFalse stop :: (body ++ [jumpTo .jump position])).length := by
    simp only [List.length_append, List.length_cons, List.length_nil]
    omega
  rw [shape]
  refine close _ (loop (by simp) ?_)
  rw [← seam]
  refine (condition _ _ 0 loops).append (cons (.level loops)
    (.branch 0 (Or.inl rfl) (Places.orAt_new _ _ _)
      (Or.inl (Or.inl (Places.orAt_new _ _ _)))) ?_)
  exact inner.append (single (.jump (Or.inl (Places.orAt_new _ _ _))))

/-- The turns of a loop over items. Its body may go on with the next item and leave the loop. -/
theorem forTurns {id next : Nat} (small : id < UInt32.size) (fresh : id ∉ loops.map (·.id))
    (place : stop = next + 1 + body.length + 1)
    (inner : Segment outermost
      ((exits.orAt stop (.level loops)).orAt next (.level (⟨id, none⟩ :: loops))) (next + 1) body
      (.level (⟨id, some (next, stop)⟩ :: loops))
      (some (.level (⟨id, some (next, stop)⟩ :: loops)))) :
    Segment outermost exits next
      ({ op := .iterateForLoop, first := .int id, second := .addr stop } ::
        (body ++ [jumpTo .jump next])) (.level (⟨id, none⟩ :: loops)) (some (.level loops)) := by
  have seam : stop = next + (({ op := .iterateForLoop, first := .int id, second := .addr stop } :
      Instr) :: (body ++ [jumpTo .jump next])).length := by
    simp only [List.length_append, List.length_cons, List.length_nil]
    omega
  refine close _ (loop (by simp) ?_)
  rw [← seam]
  refine cons _ (.iterate small fresh (Places.orAt_new _ _ _)
    (Or.inl (Or.inl (Places.orAt_new _ _ _)))) ?_
  exact inner.append (single (.forget (.jump (Or.inl (Places.orAt_new _ _ _)))))

/-- A loop over items is set up before its first turn. -/
theorem forLoop {id next : Nat} {var : String} {source : List Instr} (small : id < UInt32.size)
    (fresh : id ∉ loops.map (·.id)) (subject : Pushes position source 1)
    (nextPlace : next = position + source.length + 1) (place : stop = next + 1 + body.length + 1)
    (inner : Segment outermost
      ((exits.orAt stop (.level loops)).orAt next (.level (⟨id, none⟩ :: loops))) (next + 1) body
      (.level (⟨id, some (next, stop)⟩ :: loops))
      (some (.level (⟨id, some (next, stop)⟩ :: loops)))) :
    Segment outermost exits position
      (source ++ [{ op := .createForLoop, first := .int id, second := .name var },
        { op := .iterateForLoop, first := .int id, second := .addr stop }] ++ body ++
        [jumpTo .jump next]) (.level loops) (some (.level loops)) := by
  have shape : source ++ [{ op := .createForLoop, first := .int id, second := .name var },
      { op := .iterateForLoop, first := .int id, second := .addr stop }] ++ body ++
      [jumpTo .jump next] =
      source ++ { op := .createForLoop, first := .int id, second := .name var } ::
        { op := .iterateForLoop, first := .int id, second := .addr stop } ::
          (body ++ [jumpTo .jump next]) := by
    simp only [List.append_assoc, List.cons_append, List.nil_append]
  rw [shape]
  refine (subject _ _ 0 loops).append
    (cons _ (.create 0 small fresh (Places.orAt_new _ _ _)) ?_)
  rw [← nextPlace]
  exact forTurns small fresh place inner

end Segment

end MiniScript
