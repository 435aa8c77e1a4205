import MiniScript.Proofs.Code.Sealing
import MiniScript.Proofs.Compiler.Bodies

/-!
# Where the code of a node stands

The code of every node of a body is sealed in the code of the body: it stands where
the sizes of what comes before say, it only goes forward, and no jump from
elsewhere leads into it. The bodies of function literals have code of their own.
-/

namespace MiniScript

namespace Compiler

mutual

/-- The nodes of an expression whose code starts at `position`, each with the place where its own
code starts. -/
def exprNodes (position : Nat) (expr : Expr) : List (Nat × Expr) :=
  (position, expr) ::
    match expr with
    | .unary _ _ _ operand => exprNodes position operand
    | .binary left _ _ _ right =>
        exprNodes position left ++ exprNodes (position + exprSize left) right
    | .logic left _ _ _ right =>
        exprNodes position left ++ exprNodes (position + exprSize left + 1) right
    | .chain _ _ (first :: rest) _ =>
        exprNodes position first ++ linksNodes (position + exprSize first) rest
    | .group _ _ inner => exprNodes position inner
    | .list _ _ items => exprsNodes position items
    | .map _ _ entries => entriesNodes position entries
    | .index _ _ base index =>
        exprNodes position base ++ exprNodes (position + exprSize base) index
    | .member base _ _ => if base.isSuper then [] else exprNodes position base
    | .slice _ _ base first last =>
        exprNodes position base ++ boundNodes (position + exprSize base) first ++
          boundNodes (position + exprSize base + boundSize first) last
    | .call _ _ (.name ident) args => exprsNodes (position + if ident.isScope then 1 else 0) args
    | .call _ _ (.member base _ _) args =>
        if base.isSuper then exprsNodes (position + 1) args
        else exprNodes position base ++ exprsNodes (position + exprSize base + 1) args
    | .call _ _ (.index _ _ base index) args =>
        exprNodes position base ++ exprNodes (position + exprSize base) index ++
          exprsNodes (position + exprSize base + exprSize index) args
    | .call _ _ callee args =>
        exprNodes position callee ++ exprsNodes (position + exprSize callee) args
    | .reference _ _ inner => exprNodes position inner
    | _ => []

def linksNodes (position : Nat) : List Expr → List (Nat × Expr)
  | [] => []
  | item :: rest =>
      exprNodes position item ++
        linksNodes (position + exprSize item + if rest.isEmpty then 1 else 2) rest

def exprsNodes (position : Nat) : List Expr → List (Nat × Expr)
  | [] => []
  | item :: rest => exprNodes position item ++ exprsNodes (position + exprSize item) rest

def entriesNodes (position : Nat) : List (Expr × Expr) → List (Nat × Expr)
  | [] => []
  | (key, value) :: rest =>
      exprNodes position key ++ exprNodes (position + exprSize key) value ++
        entriesNodes (position + exprSize key + exprSize value) rest

def boundNodes (position : Nat) : Option Expr → List (Nat × Expr)
  | none => []
  | some bound => exprNodes position bound

end

mutual

/-- The nodes of a statement whose code starts at `position`. -/
def stmtNodes (position : Nat) : Stmt → List (Nat × Expr)
  | .expr _ value => exprNodes position value
  | .assign _ (.name _) none value => exprNodes position value
  | .assign _ (.name _) (some _) value => exprNodes (position + 1) value
  | .assign _ (.member base _ _) op value =>
      exprNodes position base ++
        exprNodes (position + exprSize base + 1 + (beforeStore op).length) value
  | .assign _ (.index _ _ base index) op value =>
      exprNodes position base ++ exprNodes (position + exprSize base) index ++
        exprNodes (position + exprSize base + exprSize index + (beforeStore op).length) value
  | .assign .. => []
  | .ifElse _ _ condition thenBranch none =>
      exprNodes position condition ++ stmtsNodes (position + exprSize condition + 1) thenBranch
  | .ifElse _ _ condition thenBranch (some elseBranch) =>
      exprNodes position condition ++ stmtsNodes (position + exprSize condition + 1) thenBranch ++
        stmtsNodes (position + exprSize condition + 1 + stmtsSize thenBranch + 1) elseBranch
  | .whileLoop _ _ condition body =>
      exprNodes position condition ++ stmtsNodes (position + exprSize condition + 1) body
  | .forLoop _ _ _ iter body =>
      exprNodes position iter ++ stmtsNodes (position + exprSize iter + 2) body
  | .breakLoop .. => []
  | .continueLoop .. => []
  | .returnValue _ _ value => boundNodes position value

def stmtsNodes (position : Nat) : List Stmt → List (Nat × Expr)
  | [] => []
  | stmt :: rest => stmtNodes position stmt ++ stmtsNodes (position + stmtSize stmt) rest

end

/-- The code of an expression that starts at `position`, however it is used. -/
def WritesExpr (sourceName : Option String) (position : Nat) (expr : Expr) (code : List Instr) :
    Prop :=
  ∃ mode before after, Yields (layExpr sourceName mode position expr) before code after

/-- The node has its code at its place, sealed in the code from `position` on. -/
def NodePlaced (sourceName : Option String) (position : Nat) (code : List Instr)
    (node : Nat × Expr) : Prop :=
  ∃ part, WritesExpr sourceName node.1 node.2 part ∧ Sealed position code node.1 part

/-- The code from `position` on goes forward, to its end at most, and holds the nodes. -/
structure Placed (sourceName : Option String) (position : Nat) (nodes : List (Nat × Expr))
    (code : List Instr) : Prop where
  forward : Forwards position (position + code.length) code
  nodes : ∀ node ∈ nodes, NodePlaced sourceName position code node

variable {sourceName : Option String}

theorem NodePlaced.within {position place : Nat} {code part : List Instr} {node : Nat × Expr}
    (placed : NodePlaced sourceName place part node) (outer : Sealed position code place part) :
    NodePlaced sourceName position code node := by
  obtain ⟨piece, writes, inner⟩ := placed
  exact ⟨piece, writes, outer.trans inner⟩

namespace Placed

variable {position : Nat} {first second nodes : List (Nat × Expr)}
variable {code left right : List Instr} {instr : Instr}

theorem nil : Placed sourceName position [] [] :=
  ⟨.nil, fun _ member => nomatch member⟩

theorem straight {taken put : Nat} (moves : instr.Straight taken put) :
    Placed sourceName position [] [instr] :=
  ⟨.single (.straight moves), fun _ member => nomatch member⟩

theorem append (front : Placed sourceName position first left)
    (back : Placed sourceName (position + left.length) second right) :
    Placed sourceName position (first ++ second) (left ++ right) := by
  have ends : position + left.length + right.length = position + (left ++ right).length := by
    rw [List.length_append, Nat.add_assoc]
  refine ⟨?_, fun node member => ?_⟩
  · rw [← ends]
    exact (front.forward.mono (Nat.le_add_right _ _)).append back.forward
  · rcases List.mem_append.mp member with early | late
    · exact (front.nodes node early).within (.ofFirst position left back.forward)
    · exact (back.nodes node late).within (.ofSecond right front.forward)

/-- An instruction after the code. -/
theorem apply {taken put : Nat} (front : Placed sourceName position nodes code)
    (moves : instr.Straight taken put) : Placed sourceName position nodes (code ++ [instr]) := by
  have whole := front.append (straight moves)
  rw [List.append_nil] at whole
  exact whole

/-- The expression that all of the code is for. -/
theorem node {expr : Expr} (placed : Placed sourceName position nodes code)
    (writes : WritesExpr sourceName position expr code) :
    Placed sourceName position ((position, expr) :: nodes) code :=
  ⟨placed.forward, List.forall_mem_cons.mpr ⟨⟨code, writes, .refl position code⟩, placed.nodes⟩⟩

theorem logic {op : Opcode} (branches : op = .jumpIfFalse ∨ op = .jumpIfTrue) (short full : Value)
    {shortAt : Nat} (place : shortAt = position + left.length + right.length + 4)
    (front : Placed sourceName position first left)
    (back : Placed sourceName (position + left.length + 1) second right) :
    Placed sourceName position (first ++ second)
      (left ++ [jumpTo op shortAt] ++ right ++ [jumpTo op shortAt] ++
        [pushValue full, jumpTo .jump (shortAt + 1), pushValue short]) := by
  have shape : left ++ [jumpTo op shortAt] ++ right ++ [jumpTo op shortAt] ++
      [pushValue full, jumpTo .jump (shortAt + 1), pushValue short] =
      left ++ jumpTo op shortAt :: (right ++ [jumpTo op shortAt, pushValue full,
        jumpTo .jump (shortAt + 1), pushValue short]) := by
    simp only [List.append_assoc, List.cons_append, List.nil_append]
  have ends : shortAt + 1 = position + (left ++ jumpTo op shortAt :: (right ++
      [jumpTo op shortAt, pushValue full, jumpTo .jump (shortAt + 1),
        pushValue short])).length := by
    simp only [List.length_append, List.length_cons, List.length_nil]
    omega
  have tail : Forwards (position + left.length + 1 + right.length) (shortAt + 1)
      [jumpTo op shortAt, pushValue full, jumpTo .jump (shortAt + 1), pushValue short] := by
    refine .cons (.branch branches (by omega) (Nat.le_succ _)) ?_
    refine .cons (.straight (.pushValue full)) ?_
    exact .cons (.jump (by omega) (Nat.le_refl _)) (.single (.straight (.pushValue short)))
  have rest : Forwards (position + left.length) (shortAt + 1) (jumpTo op shortAt :: (right ++
      [jumpTo op shortAt, pushValue full, jumpTo .jump (shortAt + 1), pushValue short])) :=
    .cons (.branch branches (by omega) (Nat.le_succ _)) ((back.forward.mono (by omega)).append tail)
  rw [shape]
  refine ⟨?_, fun node member => ?_⟩
  · rw [← ends]
    exact (front.forward.mono (by omega)).append rest
  · rcases List.mem_append.mp member with early | late
    · exact (front.nodes node early).within (.ofFirst position left rest)
    · -- Outside of the right operand, jumps end before it or lead beyond it.
      refine (back.nodes node late).within ⟨left ++ [jumpTo op shortAt], [jumpTo op shortAt,
        pushValue full, jumpTo .jump (shortAt + 1), pushValue short], ?_, ?_, ?_⟩
      · simp only [List.append_assoc, List.cons_append, List.nil_append]
      · rw [List.length_append, List.length_singleton, Nat.add_assoc]
      · intro instr member target aims
        rcases List.mem_append.mp member with ahead | behind
        · rcases List.mem_append.mp ahead with inLeft | isJump
          · exact Or.inl (Nat.le_succ_of_le (front.forward.aims inLeft aims).2)
          · rw [List.mem_singleton.mp isJump] at aims
            rcases aims with first | second
            · cases first
              exact Or.inr (by omega)
            · cases second
        · exact Or.inr (tail.aims behind aims).1

end Placed

/-- The links of a chain from `position` on go forward, to the failure at most, and hold the nodes,
if the failure is beyond their end. -/
def PlacedLinks (sourceName : Option String) (failure position : Nat) (nodes : List (Nat × Expr))
    (code : List Instr) : Prop :=
  position + code.length < failure →
    Forwards position failure code ∧ ∀ node ∈ nodes, NodePlaced sourceName position code node

namespace PlacedLinks

variable {failure position : Nat} {first nodes : List (Nat × Expr)} {code links : List Instr}

theorem nil : PlacedLinks sourceName failure position [] [] :=
  fun _ => ⟨.nil, fun _ member => nomatch member⟩

theorem linkInstrs_forward {position failure : Nat} (op : BinaryOp) (isLast : Bool)
    (room : position + 1 < failure) :
    Forwards position failure (linkInstrs op isLast failure) := by
  cases isLast with
  | true => exact .single (.straight (.binary op))
  | false =>
      exact .cons (.straight (.compareKeep op))
        (.single (.branch (Or.inl rfl) room (Nat.le_refl _)))

theorem linkInstrs_aims {failure target : Nat} {op : BinaryOp} {isLast : Bool} {instr : Instr}
    (member : instr ∈ linkInstrs op isLast failure) (aims : instr.Aims target) :
    target = failure := by
  cases isLast with
  | true =>
      rw [List.mem_singleton.mp member] at aims
      exact absurd aims ((Instr.Straight.binary op).not_aims target)
  | false =>
      rcases List.mem_cons.mp member with rfl | member
      · exact absurd aims ((Instr.Straight.compareKeep op).not_aims target)
      · rw [List.mem_singleton.mp member] at aims
        rcases aims with first | second
        · cases first
          rfl
        · cases second

theorem cons (op : BinaryOp) (isLast : Bool) (item : Placed sourceName position first code)
    (rest : PlacedLinks sourceName failure
      (position + (code ++ linkInstrs op isLast failure).length) nodes links) :
    PlacedLinks sourceName failure position (first ++ nodes)
      (code ++ linkInstrs op isLast failure ++ links) := by
  intro room
  have length := linkInstrs_length op isLast failure
  simp only [List.length_append] at room
  obtain ⟨forward, placed⟩ := rest (by rw [List.length_append]; omega)
  have compare : Forwards (position + code.length) failure (linkInstrs op isLast failure) :=
    linkInstrs_forward op isLast (by split at length <;> omega)
  have after : Forwards (position + code.length) failure
      (linkInstrs op isLast failure ++ links) := by
    refine compare.append ?_
    rw [Nat.add_assoc, ← List.length_append]
    exact forward
  rw [List.append_assoc]
  refine ⟨(item.forward.mono (by omega)).append after, fun node member => ?_⟩
  rcases List.mem_append.mp member with early | late
  · exact (item.nodes node early).within (.ofFirst position code after)
  · refine (placed node late).within ⟨code ++ linkInstrs op isLast failure, [], ?_, rfl, ?_⟩
    · rw [List.append_nil, List.append_assoc]
    · intro instr member target aims
      rw [List.append_nil] at member
      rw [List.length_append]
      rcases List.mem_append.mp member with inItem | inLink
      · exact Or.inl (by have := (item.forward.aims inItem aims).2; omega)
      · exact Or.inr (by have := linkInstrs_aims inLink aims; omega)

theorem chain (front : Placed sourceName position first code)
    (place : failure = position + code.length + links.length + 1)
    (rest : PlacedLinks sourceName failure (position + code.length) nodes links) :
    Placed sourceName position (first ++ nodes)
      (code ++ links ++
        [jumpTo .jump (failure + 2), { op := .pop }, pushValue (.truth false)]) := by
  obtain ⟨forward, placed⟩ := rest (by omega)
  have tail : Forwards (position + code.length + links.length) (failure + 2)
      [jumpTo .jump (failure + 2), { op := .pop }, pushValue (.truth false)] :=
    .cons (.jump (by omega) (Nat.le_refl _))
      (.cons (.straight .pop) (.single (.straight (.pushValue _))))
  have after : Forwards (position + code.length) (failure + 2)
      (links ++ [jumpTo .jump (failure + 2), { op := .pop }, pushValue (.truth false)]) :=
    (forward.mono (Nat.le_add_right _ _)).append tail
  rw [List.append_assoc]
  refine ⟨?_, fun node member => ?_⟩
  · rw [show position + (code ++ (links ++ [jumpTo .jump (failure + 2), { op := .pop },
      pushValue (.truth false)])).length = failure + 2 by
        simp only [List.length_append, List.length_cons, List.length_nil]; omega]
    exact (front.forward.mono (by omega)).append after
  · rcases List.mem_append.mp member with early | late
    · exact (front.nodes node early).within (.ofFirst position code after)
    · refine (placed node late).within ⟨code, [jumpTo .jump (failure + 2), { op := .pop },
        pushValue (.truth false)], (List.append_assoc _ _ _).symm, rfl, ?_⟩
      intro instr member target aims
      rcases List.mem_append.mp member with inFirst | inTail
      · exact Or.inl (front.forward.aims inFirst aims).2
      · exact Or.inr (tail.aims inTail aims).1

end PlacedLinks

mutual

/-- The code of an expression holds its nodes. -/
theorem layExpr_placed (expr : Expr) {mode : Mode} {position : Nat} {before after : LayState}
    {code : List Instr}
    (ran : Yields (layExpr sourceName mode position expr) before code after) :
    Placed sourceName position (exprNodes position expr) code := by
  have writes : WritesExpr sourceName position expr code := ⟨mode, before, after, ran⟩
  cases expr with
  | number | text | bool | null =>
      simp only [layExpr, yields_pure] at ran
      obtain ⟨rfl, rfl⟩ := ran
      simp only [exprNodes]
      exact .node (.straight (.pushValue _)) writes
  | name ident =>
      simp only [layExpr, yields_pure] at ran
      obtain ⟨rfl, rfl⟩ := ran
      simp only [exprNodes]
      exact .node (.straight (nameInstr_straight mode ident.name)) writes
  | self | super =>
      simp only [layExpr, yields_pure] at ran
      obtain ⟨rfl, rfl⟩ := ran
      simp only [exprNodes]
      exact .node (.straight (.loadVar _)) writes
  | unary op span id operand =>
      simp only [layExpr, yields_bind, yields_pure] at ran
      obtain ⟨inner, middle, ran, rfl, rfl⟩ := ran
      rw [exprNodes]
      exact .node ((layExpr_placed operand ran).apply (.unary op)) writes
  | binary left op span id right =>
      simp only [layExpr, yields_bind, yields_pure] at ran
      obtain ⟨first, middle, ranLeft, second, last, ranRight, rfl, rfl⟩ := ran
      rw [exprNodes, ← (layExpr_written left ranLeft).length]
      exact .node (((layExpr_placed left ranLeft).append
        (layExpr_placed right ranRight)).apply (.binary op)) writes
  | logic left op span id right =>
      simp only [layExpr, yields_bind, yields_pure] at ran
      obtain ⟨first, middle, ranLeft, second, last, ranRight, rfl, rfl⟩ := ran
      rw [exprNodes, ← (layExpr_written left ranLeft).length]
      exact .node (.logic (logicParts_branches op) _ _ rfl (layExpr_placed left ranLeft)
        (layExpr_placed right ranRight)) writes
  | chain span id items ops =>
      cases items with
      | nil =>
          simp only [layExpr, yields_pure] at ran
          obtain ⟨rfl, rfl⟩ := ran
          simp only [exprNodes]
          exact .node (.straight (.pushValue _)) writes
      | cons first rest =>
          simp only [layExpr, yields_ite, yields_bind, yields_pure, yields_reject, and_false,
            or_false] at ran
          obtain ⟨same, head, middle, ranHead, links, last, ranLinks, rfl, rfl⟩ := ran
          have paired : (ops.map (·.1)).length = rest.length := by rw [List.length_map, same]
          have tail := layLinks_placed rest paired ranLinks
          have length := (layLinks_written rest paired ranLinks).length
          rw [exprNodes, ← (layExpr_written first ranHead).length]
          exact .node (tail.chain (layExpr_placed first ranHead) (by rw [length])) writes
  | group span id inner =>
      simp only [layExpr] at ran
      rw [exprNodes]
      exact .node (layExpr_placed inner ran) writes
  | list span id items =>
      simp only [layExpr, yields_bind, yields_pure] at ran
      obtain ⟨inner, middle, ran, rfl, rfl⟩ := ran
      rw [exprNodes]
      exact .node ((layExprs_placed items ran).apply (.buildList _)) writes
  | map span id entries =>
      simp only [layExpr, yields_bind, yields_pure] at ran
      obtain ⟨inner, middle, ran, rfl, rfl⟩ := ran
      rw [exprNodes]
      exact .node ((layEntries_placed entries ran).apply (.buildMap _)) writes
  | index span id base index =>
      simp only [layExpr, yields_bind, yields_pure] at ran
      obtain ⟨first, middle, ranBase, second, last, ranIndex, rfl, rfl⟩ := ran
      rw [exprNodes, ← (layExpr_written base ranBase).length]
      exact .node (((layExpr_placed base ranBase).append
        (layExpr_placed index ranIndex)).apply (indexInstr_straight mode)) writes
  | member base field id =>
      simp only [layExpr, yields_ite, yields_bind, yields_pure] at ran
      rw [exprNodes]
      refine .node ?_ writes
      rcases ran with ⟨isSuper, rfl, rfl⟩ | ⟨isOther, inner, middle, ran, rfl, rfl⟩
      · rw [if_pos isSuper]
        exact (Placed.straight (.pushValue _)).apply (superInstr_straight mode)
      · rw [if_neg isOther, List.append_cons]
        exact ((layExpr_placed base ran).apply (.pushValue _)).apply (indexInstr_straight mode)
  | slice span id base first last =>
      simp only [layExpr, yields_bind, yields_pure] at ran
      obtain ⟨target, middle, ranBase, low, next, ranLow, high, final, ranHigh, rfl, rfl⟩ := ran
      have bounds := (layExpr_placed base ranBase).append (layBound_placed first ranLow)
      rw [exprNodes, ← (layExpr_written base ranBase).length,
        ← (layBound_written first ranLow).length]
      refine .node ?_ writes
      rw [Nat.add_assoc, ← List.length_append] at ranHigh ⊢
      exact (bounds.append (layBound_placed last ranHigh)).apply .slice
  | call span id callee args =>
      have arguments {position : Nat} {before after : LayState} {code : List Instr}
          (ran : Yields (layExprs sourceName position args) before code after) :=
        layExprs_placed args ran
      have whole {position : Nat} {before after : LayState} {code : List Instr}
          (ran : Yields (layExpr sourceName .invoke position callee) before code after) :
          Placed sourceName position (exprNodes position callee) code ∧
            code.length = exprSize callee :=
        ⟨layExpr_placed callee ran, (layExpr_written callee ran).length⟩
      cases callee with
      | name ident =>
          simp only [layExpr, yields_ite, yields_bind, yields_pure, yields_reject, and_false,
            false_or] at ran
          rw [exprNodes]
          refine .node ?_ writes
          rcases ran with ⟨_, ⟨isScope, code, _, ran, rfl, rfl⟩ | ⟨isOther, code, _, ran, rfl, rfl⟩⟩
          · rw [if_pos isScope]
            exact ((Placed.straight (nameInstr_straight .invoke ident.name)).append
              (arguments ran)).apply (.callValue _)
          · rw [if_neg isOther]
            exact (arguments ran).apply (.callVar _ _)
      | member base field id =>
          simp only [layExpr, yields_ite, yields_bind, yields_pure, yields_reject, and_false,
            false_or] at ran
          rw [exprNodes]
          refine .node ?_ writes
          rcases ran with ⟨_, ⟨isSuper, code, _, ran, rfl, rfl⟩ |
            ⟨isOther, target, middle, ranBase, code, _, ran, rfl, rfl⟩⟩
          · rw [if_pos isSuper]
            exact ((Placed.straight (.pushValue _)).append (arguments ran)).apply (.callSuper _)
          · have key := (layExpr_placed base ranBase).apply (.pushValue (.text field.name))
            have length : position + target.length + 1 =
                position + (target ++ [pushValue (.text field.name)]).length := by
              rw [List.length_append, Nat.add_assoc]
              rfl
            rw [if_neg isOther, ← (layExpr_written base ranBase).length]
            rw [length] at ran ⊢
            exact (key.append (arguments ran)).apply (.callIndex _)
      | index span id base index =>
          simp only [layExpr, yields_ite, yields_bind, yields_pure, yields_reject, and_false,
            false_or] at ran
          obtain ⟨_, target, middle, ranBase, key, next, ranIndex, code, _, ran, rfl, rfl⟩ := ran
          rw [exprNodes, ← (layExpr_written base ranBase).length,
            ← (layExpr_written index ranIndex).length]
          refine .node ?_ writes
          have key := (layExpr_placed base ranBase).append (layExpr_placed index ranIndex)
          rw [Nat.add_assoc, ← List.length_append] at ran ⊢
          exact (key.append (arguments ran)).apply (.callIndex _)
      | _ =>
          simp only [layExpr, yields_ite, yields_bind, yields_pure, yields_reject, and_false,
            false_or] at ran whole
          obtain ⟨_, target, middle, ranCallee, code, _, ran, rfl, rfl⟩ := ran
          obtain ⟨placed, length⟩ := whole ranCallee
          rw [exprNodes, ← length]
          · exact .node ((placed.append (arguments ran)).apply (.callValue _)) writes
          all_goals exact nofun
  | reference span id inner =>
      simp only [layExpr] at ran
      rw [exprNodes]
      exact .node (layExpr_placed inner ran) writes
  | function span id params body =>
      simp only [layExpr, yields_bind, yields_get, yields_set, yields_lift, yields_takeFunction,
        yields_pure] at ran
      obtain ⟨parameters, _, ranParams, outer, _, ⟨rfl, rfl⟩, _, _, rfl, steps, inner, ranBody,
        finished, _, ⟨assembled, rfl⟩, _, _, ⟨rfl, rfl⟩, _, _, rfl, ref, _, ⟨rfl, rfl⟩, rfl,
        rfl⟩ := ran
      simp only [exprNodes]
      exact .node (.straight (.pushFunction _)) writes

theorem layLinks_placed (items : List Expr) {failure position : Nat} {ops : List BinaryOp}
    {before after : LayState} {code : List Instr} (same : ops.length = items.length)
    (ran : Yields (layLinks sourceName failure position ops items) before code after) :
    PlacedLinks sourceName failure position (linksNodes position items) code := by
  cases items with
  | nil =>
      cases ops with
      | nil =>
          simp only [layLinks, yields_pure] at ran
          obtain ⟨rfl, rfl⟩ := ran
          exact .nil
      | cons => cases same
  | cons item rest =>
      cases ops with
      | nil => cases same
      | cons op ops =>
          simp only [layLinks, yields_bind, yields_pure] at ran
          obtain ⟨inner, middle, ranItem, links, last, ranRest, rfl, rfl⟩ := ran
          have tail := layLinks_placed rest (Nat.succ.inj same) ranRest
          rw [linksNodes, ← (layExpr_written item ranItem).length,
            ← linkInstrs_length op rest.isEmpty failure, Nat.add_assoc, ← List.length_append]
          exact tail.cons op rest.isEmpty (layExpr_placed item ranItem)

theorem layExprs_placed (items : List Expr) {position : Nat} {before after : LayState}
    {code : List Instr} (ran : Yields (layExprs sourceName position items) before code after) :
    Placed sourceName position (exprsNodes position items) code := by
  cases items with
  | nil =>
      simp only [layExprs, yields_pure] at ran
      obtain ⟨rfl, rfl⟩ := ran
      exact .nil
  | cons item rest =>
      simp only [layExprs, yields_bind, yields_pure] at ran
      obtain ⟨first, middle, ranItem, more, last, ranRest, rfl, rfl⟩ := ran
      rw [exprsNodes, ← (layExpr_written item ranItem).length]
      exact (layExpr_placed item ranItem).append (layExprs_placed rest ranRest)

theorem layEntries_placed (entries : List (Expr × Expr)) {position : Nat}
    {before after : LayState} {code : List Instr}
    (ran : Yields (layEntries sourceName position entries) before code after) :
    Placed sourceName position (entriesNodes position entries) code := by
  cases entries with
  | nil =>
      simp only [layEntries, yields_pure] at ran
      obtain ⟨rfl, rfl⟩ := ran
      exact .nil
  | cons entry rest =>
      obtain ⟨key, value⟩ := entry
      simp only [layEntries, yields_bind, yields_pure] at ran
      obtain ⟨first, middle, ranKey, second, next, ranValue, more, last, ranRest, rfl, rfl⟩ := ran
      have pair := (layExpr_placed key ranKey).append (layExpr_placed value ranValue)
      rw [entriesNodes, ← (layExpr_written key ranKey).length,
        ← (layExpr_written value ranValue).length]
      rw [Nat.add_assoc, ← List.length_append] at ranRest ⊢
      exact pair.append (layEntries_placed rest ranRest)

theorem layBound_placed (bound : Option Expr) {position : Nat} {before after : LayState}
    {code : List Instr} (ran : Yields (layBound sourceName position bound) before code after) :
    Placed sourceName position (boundNodes position bound) code := by
  cases bound with
  | none =>
      simp only [layBound, yields_pure] at ran
      obtain ⟨rfl, rfl⟩ := ran
      exact .straight (.pushValue _)
  | some bound =>
      simp only [layBound] at ran
      exact layExpr_placed bound ran

end

/-- The addresses that `break` and `continue` jump to. -/
def LoopAims : Option LoopPlace → Nat → Prop
  | some (.whileLoop start stop), target => target = start ∨ target = stop
  | _, _ => False

/-- The node has its code at its place, sealed in the code from `position` on, which goes on behind
it with an instruction that no loop comes back to. -/
def NodeInside (sourceName : Option String) (position : Nat) (code : List Instr)
    (node : Nat × Expr) : Prop :=
  ∃ part, WritesExpr sourceName node.1 node.2 part ∧ Sealed position code node.1 part ∧
    ∃ instr, code[node.1 + part.length - position]? = some instr ∧ instr.op ≠ .iterateForLoop

/-- An instruction behind expressions that is not the turn of a loop. -/
theorem Placed.inside {position : Nat} {nodes : List (Nat × Expr)} {code : List Instr}
    {instr : Instr} {node : Nat × Expr} (placed : Placed sourceName position nodes code)
    (member : node ∈ nodes) (outer : Sealed position (code ++ [instr]) position code)
    (plain : instr.op ≠ .iterateForLoop) :
    NodeInside sourceName position (code ++ [instr]) node := by
  obtain ⟨piece, writes, inner⟩ := placed.nodes node member
  refine ⟨piece, writes, outer.trans inner, ?_⟩
  have bounds := inner.bounds
  rcases Nat.lt_or_ge (node.1 + piece.length - position) code.length with within | beyond
  · rw [List.getElem?_append_left within]
    have found := List.getElem?_eq_getElem within
    exact ⟨_, found, (placed.forward _ _ found).op_ne (Or.inr (Or.inl rfl))⟩
  · refine ⟨instr, ?_, plain⟩
    rw [show node.1 + piece.length - position = code.length by omega, List.getElem?_concat_length]

/-- Since the code around a node goes on behind it, jumps to the end of that code do no harm. -/
theorem NodeInside.within {position place : Nat} {before part after : List Instr}
    {node : Nat × Expr} (inside : NodeInside sourceName place part node)
    (same : place = position + before.length)
    (avoids : ∀ instr ∈ before ++ after, ∀ target, instr.Aims target →
      target ≤ place ∨ place + part.length ≤ target) :
    NodeInside sourceName position (before ++ part ++ after) node := by
  obtain ⟨piece, writes, ⟨front, back, rfl, start, spares⟩, behind, found, plain⟩ := inside
  obtain ⟨goesOn, _⟩ := List.getElem?_eq_some_iff.mp found
  simp only [List.length_append] at avoids goesOn
  refine ⟨piece, writes, ⟨before ++ front, back ++ after, ?_, ?_, ?_⟩, behind, ?_, plain⟩
  · simp only [List.append_assoc]
  · rw [List.length_append]
    omega
  · intro instr member target aims
    have outside (member : instr ∈ before ++ after) :
        target ≤ node.1 ∨ node.1 + piece.length < target := by
      have := avoids instr member target aims
      omega
    rcases List.mem_append.mp member with early | late
    · rcases List.mem_append.mp early with far | near
      · exact outside (List.mem_append_left _ far)
      · exact spares instr (List.mem_append_left _ near) target aims
    · rcases List.mem_append.mp late with near | far
      · exact spares instr (List.mem_append_right _ near) target aims
      · exact outside (List.mem_append_right _ far)
  · have within := (List.getElem?_eq_some_iff.mp found).1
    rw [show node.1 + piece.length - position = before.length + (node.1 + piece.length - place) by
      omega, List.append_assoc, List.getElem?_append_right (Nat.le_add_right _ _),
      Nat.add_sub_cancel_left, List.getElem?_append_left within]
    exact found

/-- The code of statements from `position` on jumps to places between its start and its end, and to
the exits. It holds the nodes, if the exits are outside of it. -/
structure PlacedBlock (sourceName : Option String) (position : Nat) (exits : Nat → Prop)
    (nodes : List (Nat × Expr)) (code : List Instr) : Prop where
  aims : ∀ instr ∈ code, ∀ target, instr.Aims target →
    position ≤ target ∧ target ≤ position + code.length ∨ exits target
  nodes : (∀ target, exits target → target ≤ position ∨ position + code.length ≤ target) →
    ∀ node ∈ nodes, NodeInside sourceName position code node

namespace PlacedBlock

variable {position : Nat} {exits more : Nat → Prop} {first second nodes : List (Nat × Expr)}
variable {code left right : List Instr} {instr : Instr}

theorem nil : PlacedBlock sourceName position exits [] [] :=
  ⟨(fun _ member => nomatch member), (fun _ _ member => nomatch member)⟩

/-- An instruction that jumps to exits only. -/
theorem single (leaves : ∀ target, instr.Aims target → exits target) :
    PlacedBlock sourceName position exits [] [instr] := by
  refine ⟨fun other member target aims => Or.inr ?_, fun _ _ member => nomatch member⟩
  rw [List.mem_singleton.mp member] at aims
  exact leaves target aims

theorem mono (block : PlacedBlock sourceName position exits nodes code)
    (wider : ∀ target, exits target → more target) :
    PlacedBlock sourceName position more nodes code :=
  ⟨fun instr member target aims => (block.aims instr member target aims).imp_right (wider target),
    fun outside => block.nodes fun target leaves => outside target (wider target leaves)⟩

/-- Jumps to the start and to the end stay inside. -/
theorem close
    (block : PlacedBlock sourceName position
      (fun target => exits target ∨ target = position ∨ target = position + code.length) nodes
      code) :
    PlacedBlock sourceName position exits nodes code := by
  constructor
  · intro instr member target aims
    rcases block.aims instr member target aims with within | leaves | rfl | rfl
    · exact Or.inl within
    · exact Or.inr leaves
    · exact Or.inl ⟨Nat.le_refl _, Nat.le_add_right _ _⟩
    · exact Or.inl ⟨Nat.le_add_right _ _, Nat.le_refl _⟩
  · intro outside
    refine block.nodes fun target leaves => ?_
    rcases leaves with leaves | rfl | rfl
    · exact outside target leaves
    · exact Or.inl (Nat.le_refl _)
    · exact Or.inr (Nat.le_refl _)

theorem append (front : PlacedBlock sourceName position exits first left)
    (back : PlacedBlock sourceName (position + left.length) exits second right) :
    PlacedBlock sourceName position exits (first ++ second) (left ++ right) := by
  constructor
  · intro instr member target aims
    rw [List.length_append]
    rcases List.mem_append.mp member with early | late
    · exact (front.aims instr early target aims).imp_left fun _ => by omega
    · exact (back.aims instr late target aims).imp_left fun _ => by omega
  · intro outside node member
    rw [List.length_append] at outside
    rcases List.mem_append.mp member with early | late
    · have inside := front.nodes (fun target leaves => by have := outside target leaves; omega) node
        early
      have whole := @NodeInside.within sourceName position position [] left right node inside rfl
        fun instr member target aims => by
          rcases back.aims instr member target aims with within | leaves
          · exact Or.inr within.1
          · have := outside target leaves
            omega
      exact whole
    · have inside := back.nodes (fun target leaves => by have := outside target leaves; omega) node
        late
      have whole := @NodeInside.within sourceName position _ left right [] node inside rfl
        fun instr member target aims => by
          rw [List.append_nil] at member
          rcases front.aims instr member target aims with within | leaves
          · exact Or.inl within.2
          · have := outside target leaves
            omega
      rw [List.append_nil] at whole
      exact whole

theorem snoc (front : PlacedBlock sourceName position exits nodes code)
    (leaves : ∀ target, instr.Aims target → exits target) :
    PlacedBlock sourceName position exits nodes (code ++ [instr]) := by
  have whole := front.append (single leaves)
  rw [List.append_nil] at whole
  exact whole

/-- Expressions, and an instruction after them that jumps to exits only. -/
theorem ofPlaced (placed : Placed sourceName position nodes code)
    (plain : instr.op ≠ .iterateForLoop) (leaves : ∀ target, instr.Aims target → exits target) :
    PlacedBlock sourceName position exits nodes (code ++ [instr]) := by
  have length : (code ++ [instr]).length = code.length + 1 := List.length_append
  constructor
  · intro other member target aims
    rw [length]
    rcases List.mem_append.mp member with early | late
    · have := placed.forward.aims early aims
      exact Or.inl (by omega)
    · rw [List.mem_singleton.mp late] at aims
      exact Or.inr (leaves target aims)
  · intro outside node member
    rw [length] at outside
    refine placed.inside member ⟨[], [instr], rfl, rfl, ?_⟩ plain
    intro other member target aims
    rw [List.mem_singleton.mp member] at aims
    have := outside target (leaves target aims)
    omega

theorem jumpTo_aims {op : Opcode} {address target : Nat} (aims : (jumpTo op address).Aims target) :
    target = address := by
  rcases aims with first | second
  · cases first
    rfl
  · cases second

theorem ifThen {test : List Instr} {stop : Nat} (condition : Placed sourceName position first test)
    (place : stop = position + test.length + 1 + code.length)
    (branch : PlacedBlock sourceName (position + test.length + 1) exits nodes code) :
    PlacedBlock sourceName position exits (first ++ nodes)
      (test ++ [jumpTo .jumpIfFalse stop] ++ code) := by
  refine close (append (ofPlaced condition nofun fun target aims => ?_) ?_)
  · rw [jumpTo_aims aims]
    refine Or.inr (Or.inr ?_)
    simp only [List.length_append, List.length_singleton]
    omega
  · rw [List.length_append, ← Nat.add_assoc]
    exact branch.mono fun _ => Or.inl

theorem ifElse {test : List Instr} {stop elseAt : Nat}
    (condition : Placed sourceName position first test)
    (elsePlace : elseAt = position + test.length + 1 + left.length + 1)
    (place : stop = elseAt + right.length)
    (branch : PlacedBlock sourceName (position + test.length + 1) exits second left)
    (alternative : PlacedBlock sourceName elseAt exits nodes right) :
    PlacedBlock sourceName position exits (first ++ second ++ nodes)
      (test ++ [jumpTo .jumpIfFalse elseAt] ++ left ++ [jumpTo .jump stop] ++ right) := by
  have length : (test ++ [jumpTo .jumpIfFalse elseAt] ++ left ++ [jumpTo .jump stop]).length =
      test.length + 1 + left.length + 1 := by
    simp only [List.length_append, List.length_singleton]
  refine close (append (close ?_) ?_)
  · refine snoc (append (ofPlaced condition nofun fun target aims => ?_) ?_) fun target aims => ?_
    · rw [jumpTo_aims aims]
      refine Or.inr (Or.inr ?_)
      rw [length]
      omega
    · rw [List.length_append, ← Nat.add_assoc]
      exact branch.mono fun _ => Or.inl ∘ Or.inl
    · rw [jumpTo_aims aims]
      refine Or.inl (Or.inr (Or.inr ?_))
      rw [List.length_append, length]
      omega
  · rw [length, show position + (test.length + 1 + left.length + 1) = elseAt by omega]
    exact alternative.mono fun _ => Or.inl

theorem whileLoop {test : List Instr} {stop : Nat}
    (condition : Placed sourceName position first test)
    (place : stop = position + test.length + 1 + code.length + 1)
    (body : PlacedBlock sourceName (position + test.length + 1)
      (fun target => target = position ∨ target = stop) nodes code) :
    PlacedBlock sourceName position exits (first ++ nodes)
      (test ++ [jumpTo .jumpIfFalse stop] ++ code ++ [jumpTo .jump position]) := by
  have ends : stop = position +
      (test ++ [jumpTo .jumpIfFalse stop] ++ code ++ [jumpTo .jump position]).length := by
    simp only [List.length_append, List.length_singleton]
    omega
  refine close (snoc (append (ofPlaced condition nofun fun target aims => ?_) ?_)
    fun target aims => ?_)
  · rw [jumpTo_aims aims]
    exact Or.inr (Or.inr ends)
  · rw [List.length_append, ← Nat.add_assoc]
    exact body.mono fun target loops => Or.inr (loops.imp_right fun same => same.trans ends)
  · rw [jumpTo_aims aims]
    exact Or.inr (Or.inl rfl)

theorem forLoop {source : List Instr} {id next stop : Nat} {var : String}
    (subject : Placed sourceName position first source)
    (nextPlace : next = position + source.length + 1) (place : stop = next + 1 + code.length + 1)
    (body : PlacedBlock sourceName (next + 1) (fun _ => False) nodes code) :
    PlacedBlock sourceName position exits (first ++ nodes)
      (source ++ [{ op := .createForLoop, first := .int id, second := .name var },
        { op := .iterateForLoop, first := .int id, second := .addr stop }] ++ code ++
        [jumpTo .jump next]) := by
  generalize creates : ({ op := .createForLoop, first := .int id, second := .name var } : Instr) =
    create
  generalize iterates :
    ({ op := .iterateForLoop, first := .int id, second := .addr stop } : Instr) = iterate
  have shape : source ++ [create, iterate] ++ code ++ [jumpTo .jump next] =
      source ++ [create] ++ ([iterate] ++ code ++ [jumpTo .jump next]) := by
    simp only [List.append_assoc, List.cons_append, List.nil_append]
  have turns : PlacedBlock sourceName next exits ([] ++ nodes)
      ([iterate] ++ code ++ [jumpTo .jump next]) := by
    refine close (snoc (append (single fun target aims => ?_) ?_) fun target aims => ?_)
    · rw [← iterates] at aims
      have same : target = stop := by
        rcases aims with first | second
        · cases first
        · cases second
          rfl
      refine Or.inr (Or.inr ?_)
      simp only [List.length_append, List.length_singleton]
      omega
    · exact body.mono fun _ => False.elim
    · rw [jumpTo_aims aims]
      exact Or.inr (Or.inl rfl)
  rw [List.nil_append] at turns
  rw [shape]
  refine append (ofPlaced subject (by rw [← creates]; exact nofun) fun target aims => ?_) ?_
  · rw [← creates] at aims
    rcases aims with first | second
    · cases first
    · cases second
  · rw [List.length_append, ← Nat.add_assoc, List.length_singleton, ← nextPlace]
    exact turns

end PlacedBlock

theorem LoopAims.ofJump {loop : Option LoopPlace} {address : Nat} (known : LoopAims loop address)
    (target : Nat) (aims : (jumpTo .jump address).Aims target) : LoopAims loop target := by
  rw [PlacedBlock.jumpTo_aims aims]
  exact known

theorem not_aims_of_count (op : Opcode) (count target : Nat) :
    ¬ (withCount op count).Aims target := by
  rintro (first | second)
  · cases first
  · cases second

/-- A store to a member or an index; a compound one first reads what is there. -/
theorem Placed.beforeStore {position : Nat} {nodes : List (Nat × Expr)} {code : List Instr}
    (op : Option BinaryOp) (placed : Placed sourceName position nodes code) :
    Placed sourceName position nodes (code ++ Compiler.beforeStore op) := by
  cases op with
  | none =>
      rw [Compiler.beforeStore, List.append_nil]
      exact placed
  | some op =>
      rw [Compiler.beforeStore, List.append_cons]
      exact (placed.apply .dup2).apply (.callIndex 0)

theorem PlacedBlock.ofStore {position : Nat} {exits : Nat → Prop} {nodes more : List (Nat × Expr)}
    {code value : List Instr} (op : Option BinaryOp) (key : Placed sourceName position nodes code)
    (operand : Placed sourceName (position + (code ++ Compiler.beforeStore op).length) more value) :
    PlacedBlock sourceName position exits (nodes ++ more)
      (code ++ Compiler.beforeStore op ++ value ++ combine op ++ [{ op := .assignIndex }]) := by
  have operands := (key.beforeStore op).append operand
  refine .ofPlaced ?_ nofun fun target aims =>
    absurd aims (Instr.Straight.assignIndex.not_aims target)
  cases op with
  | none =>
      rw [combine, List.append_nil]
      exact operands
  | some op => exact operands.apply (.binary op)

mutual

theorem layStmt_placed (stmt : Stmt) {position : Nat} {loop : Option LoopPlace}
    {before after : LayState} {steps : List Builder.Step}
    (ran : Yields (layStmt sourceName position loop stmt) before steps after) :
    PlacedBlock sourceName position (LoopAims loop) (stmtNodes position stmt)
      (Builder.instrsOf steps) := by
  cases stmt with
  | expr id value =>
      simp only [layStmt, yields_bind, yields_pure] at ran
      obtain ⟨code, _, ran, rfl, rfl⟩ := ran
      rw [instrsOf_emitSteps, stmtNodes]
      exact .ofPlaced (layExpr_placed value ran) nofun fun target aims =>
        absurd aims (Instr.Straight.pop.not_aims target)
  | assign id target op value =>
      cases target with
      | name ident =>
          have last (target : Nat) (aims : Instr.Aims
              { op := .assignVar, first := .name ident.name } target) : LoopAims loop target :=
            absurd aims ((Instr.Straight.assignVar ident.name).not_aims target)
          cases op with
          | none =>
              simp only [layStmt, yields_bind, yields_pure] at ran
              obtain ⟨code, _, ran, rfl, rfl⟩ := ran
              rw [instrsOf_emitSteps, stmtNodes]
              exact .ofPlaced (layExpr_placed value ran) nofun last
          | some op =>
              simp only [layStmt, yields_bind, yields_pure] at ran
              obtain ⟨code, _, ran, rfl, rfl⟩ := ran
              rw [instrsOf_emitSteps, List.append_cons, stmtNodes]
              have operands := (Placed.straight (nameInstr_straight .invoke ident.name)).append
                (layExpr_placed value ran)
              exact .ofPlaced (operands.apply (.binary op)) nofun last
      | member base field id =>
          simp only [layStmt, yields_bind, yields_pure] at ran
          obtain ⟨target, middle, ranBase, code, _, ran, rfl, rfl⟩ := ran
          have key := (layExpr_placed base ranBase).apply (.pushValue (.text field.name))
          have place : position + exprSize base + 1 + (Compiler.beforeStore op).length = position +
              (target ++ [pushValue (.text field.name)] ++ Compiler.beforeStore op).length := by
            simp only [List.length_append, List.length_singleton,
              (layExpr_written base ranBase).length]
            omega
          rw [instrsOf_emitSteps, stmtNodes, place]
          exact .ofStore op key (layExpr_placed value ran)
      | index span id base index =>
          simp only [layStmt, yields_bind, yields_pure] at ran
          obtain ⟨target, middle, ranBase, key, next, ranIndex, code, _, ran, rfl, rfl⟩ := ran
          have place : position + exprSize base + exprSize index +
              (Compiler.beforeStore op).length =
                position + (target ++ key ++ Compiler.beforeStore op).length := by
            simp only [List.length_append, (layExpr_written base ranBase).length,
              (layExpr_written index ranIndex).length]
            omega
          rw [instrsOf_emitSteps, stmtNodes, place, ← (layExpr_written base ranBase).length]
          have key := (layExpr_placed base ranBase).append (layExpr_placed index ranIndex)
          exact .ofStore op key (layExpr_placed value ran)
      | _ => simp only [layStmt, yields_reject] at ran
  | ifElse id span condition thenBranch elseBranch =>
      cases elseBranch with
      | none =>
          simp only [layStmt, yields_bind, yields_pure] at ran
          obtain ⟨test, middle, ranTest, branch, _, ranBranch, rfl, rfl⟩ := ran
          rw [instrsOf_append, instrsOf_emitSteps, stmtNodes,
            ← (layExpr_written condition ranTest).length]
          refine .ifThen (layExpr_placed condition ranTest) ?_
            (layStmts_placed thenBranch ranBranch)
          rw [(layStmts_written thenBranch ranBranch).length]
      | some elseBranch =>
          simp only [layStmt, yields_bind, yields_pure] at ran
          obtain ⟨test, middle, ranTest, branch, next, ranBranch, other, _, ranOther, rfl,
            rfl⟩ := ran
          simp only [instrsOf_append, instrsOf_emitSteps]
          rw [stmtNodes, ← (layExpr_written condition ranTest).length]
          refine .ifElse (layExpr_placed condition ranTest) ?_ ?_
            (layStmts_placed thenBranch ranBranch) (layStmts_placed elseBranch ranOther)
          · rw [(layStmts_written thenBranch ranBranch).length]
          · rw [(layStmts_written elseBranch ranOther).length]
  | whileLoop id span condition body =>
      simp only [layStmt, yields_bind, yields_pure] at ran
      obtain ⟨test, middle, ranTest, inner, _, ranBody, rfl, rfl⟩ := ran
      simp only [instrsOf_append, instrsOf_emitSteps]
      rw [stmtNodes, ← (layExpr_written condition ranTest).length]
      refine .whileLoop (layExpr_placed condition ranTest) ?_ (layStmts_placed body ranBody)
      rw [(layStmts_written body ranBody).length]
  | forLoop id span var iter body =>
      simp only [layStmt, yields_bind, yields_takeLoop, yields_pure] at ran
      obtain ⟨_, _, ⟨small, rfl, rfl⟩, source, middle, ranIter, inner, _, ranBody, rfl, rfl⟩ := ran
      simp only [instrsOf_append, instrsOf_emitSteps]
      rw [stmtNodes, ← (layExpr_written iter ranIter).length]
      refine .forLoop (layExpr_placed iter ranIter) rfl ?_ (layStmts_placed body ranBody)
      rw [(layStmts_written body ranBody).length]
  | breakLoop id span =>
      rcases loop with _ | ⟨start, stop⟩ | id
      · simp only [layStmt, yields_reject] at ran
      · simp only [layStmt, yields_pure] at ran
        obtain ⟨rfl, rfl⟩ := ran
        exact .single (LoopAims.ofJump (Or.inr rfl))
      · simp only [layStmt, yields_pure] at ran
        obtain ⟨rfl, rfl⟩ := ran
        exact .single fun target aims => absurd aims (not_aims_of_count _ _ target)
  | continueLoop id span =>
      rcases loop with _ | ⟨start, stop⟩ | id
      · simp only [layStmt, yields_reject] at ran
      · simp only [layStmt, yields_pure] at ran
        obtain ⟨rfl, rfl⟩ := ran
        exact .single (LoopAims.ofJump (Or.inl rfl))
      · simp only [layStmt, yields_pure] at ran
        obtain ⟨rfl, rfl⟩ := ran
        exact .single fun target aims => absurd aims (not_aims_of_count _ _ target)
  | returnValue id span value =>
      simp only [layStmt, yields_bind, yields_pure] at ran
      obtain ⟨code, _, ran, rfl, rfl⟩ := ran
      rw [instrsOf_emitSteps, stmtNodes]
      refine .ofPlaced (layBound_placed value ran) nofun ?_
      rintro target (first | second)
      · cases first
      · cases second

theorem layStmts_placed (stmts : List Stmt) {position : Nat} {loop : Option LoopPlace}
    {before after : LayState} {steps : List Builder.Step}
    (ran : Yields (layStmts sourceName position loop stmts) before steps after) :
    PlacedBlock sourceName position (LoopAims loop) (stmtsNodes position stmts)
      (Builder.instrsOf steps) := by
  cases stmts with
  | nil =>
      simp only [layStmts, yields_pure] at ran
      obtain ⟨rfl, rfl⟩ := ran
      exact .nil
  | cons stmt rest =>
      simp only [layStmts, yields_bind, yields_pure] at ran
      obtain ⟨first, middle, ranStmt, more, _, ranRest, rfl, rfl⟩ := ran
      have tail := layStmts_placed rest ranRest
      rw [← (layStmt_written stmt ranStmt).length] at tail
      rw [instrsOf_bracket, stmtsNodes, ← (layStmt_written stmt ranStmt).length]
      exact (layStmt_placed stmt ranStmt).append tail

end

theorem closing_not_aims (kind : BodyKind) {instr : Instr} (member : instr ∈ closing kind)
    (target : Nat) : ¬ instr.Aims target := by
  have plain : instr.first ≠ .addr target ∧ instr.second ≠ .addr target := by
    cases kind with
    | program => exact nomatch member
    | function | module =>
        rcases List.mem_cons.mp member with rfl | member
        · exact ⟨nofun, nofun⟩
        · rw [List.mem_singleton.mp member]
          exact ⟨nofun, nofun⟩
  exact fun aims => aims.elim plain.1 plain.2

/-- The code of every node of a body is sealed in the code of the body, which goes on behind it. -/
theorem compileBody_nodes {kind : BodyKind} {stmts : List Stmt}
    {functions result : Array Definition} {code : Code}
    (compiled : compileBody sourceName kind stmts functions = .ok (code, result)) :
    ∀ node ∈ stmtsNodes 0 stmts, NodeInside sourceName 0 code.instrs.toList node := by
  intro node member
  obtain ⟨steps, state, ran, same, _⟩ := compileBody_steps compiled
  have inside := (layStmts_placed stmts ran).nodes (fun _ impossible => impossible.elim) node
    member
  have whole := @NodeInside.within sourceName 0 0 [] (Builder.instrsOf steps)
    (if endsInReturn stmts then [] else closing kind) node inside rfl
    fun instr member target aims => by
      rw [List.nil_append] at member
      split at member
      · exact nomatch member
      · exact absurd aims (closing_not_aims kind member target)
  rw [same]
  exact whole

end Compiler

end MiniScript
