import Mathlib.Logic.Basic
import MiniScript.Compiler.Basic
import MiniScript.Program.Parser

/-!
# What is wrong with a tree

A tree has parts, and a part may have a fault of its own: a `break` or `continue`
with no loop of its body around it, a store to something that cannot be stored to, a
chain with the wrong number of operators, a reference to the result of a call, and a
default that is no literal. A tree has a fault when it or one of its parts has.
-/

namespace MiniScript

/-- Faults of a build, not of a tree. -/
def CompileFault.concernsLabel : CompileFault → Bool
  | .boundTwice _ | .unknownLabel _ | .unresolvedLabel _ => true
  | _ => false

namespace Expr

/-- The expression without the parentheses around it. -/
def ungrouped : Expr → Expr
  | .group _ _ inner => inner.ungrouped
  | expr => expr

def isCall : Expr → Bool
  | .call .. => true
  | _ => false

end Expr

namespace Param

def default? : Param → Option Expr
  | .mk _ _ default => default

/-- A default that is given must be a literal. -/
def faults : Param → List CompileFault
  | .mk _ _ none => []
  | .mk _ ident (some default) =>
      if (Compiler.literalValue? default).isSome then [] else [.nonLiteralDefault ident.name]

end Param

namespace Compiler

/-- A part of a program. Of a statement it is known whether a loop of its body is around it. -/
inductive Node where
  | expr (expr : Expr)
  | stmt (inLoop : Bool) (stmt : Stmt)
  | body (stmts : List Stmt)

namespace Node

/-- The expressions directly in an expression. -/
def operands : Expr → List Expr
  | .unary _ _ _ operand => [operand]
  | .binary left _ _ _ right => [left, right]
  | .logic left _ _ _ right => [left, right]
  | .chain _ _ items _ => items
  | .group _ _ inner => [inner]
  | .list _ _ items => items
  | .map _ _ entries => entries.flatMap fun entry => [entry.1, entry.2]
  | .index _ _ base index => [base, index]
  | .member base _ _ => [base]
  | .slice _ _ base first last => base :: (first.toList ++ last.toList)
  | .call _ _ callee args => callee :: args
  | .reference _ _ inner => [inner]
  | .function _ _ params _ => params.filterMap Param.default?
  | _ => []

/-- The body of a function literal. -/
def bodyOf : Expr → Option (List Stmt)
  | .function _ _ _ stmts => some stmts
  | _ => none

/-- The parts directly in a part. -/
def parts : Node → List Node
  | .expr value => (bodyOf value).toList.map .body ++ (operands value).map .expr
  | .stmt _ (.expr _ value) => [.expr value]
  | .stmt _ (.assign _ target _ value) => [.expr target, .expr value]
  | .stmt inLoop (.ifElse _ _ condition thenBranch elseBranch) =>
      .expr condition :: (thenBranch ++ elseBranch.getD []).map (.stmt inLoop)
  | .stmt _ (.whileLoop _ _ condition stmts) => .expr condition :: stmts.map (.stmt true)
  | .stmt _ (.forLoop _ _ _ iter stmts) => .expr iter :: stmts.map (.stmt true)
  | .stmt _ (.breakLoop ..) => []
  | .stmt _ (.continueLoop ..) => []
  | .stmt _ (.returnValue _ _ value) => value.toList.map .expr
  | .body stmts => stmts.map (.stmt false)

/-- What is wrong with a part itself. -/
def faults : Node → List CompileFault
  | .stmt false (.breakLoop ..) => [.breakOutsideLoop]
  | .stmt false (.continueLoop ..) => [.continueOutsideLoop]
  | .stmt _ (.assign _ target _ _) => if Parser.isTarget target then [] else [.invalidTarget]
  | .expr (.chain _ _ (_ :: rest) ops) =>
      if rest.length = ops.length then [] else [.chainMismatch]
  | .expr (.reference _ _ inner) => if inner.ungrouped.isCall then [.referenceToCall] else []
  | .expr (.function _ _ params _) => params.flatMap Param.faults
  | _ => []

/-- One part is somewhere in another, or is that other itself. -/
inductive Within : Node → Node → Prop where
  | itself (node : Node) : Within node node
  | part {node part inner : Node} : part ∈ node.parts → Within part inner → Within node inner

/-- Something in the tree has the fault. -/
def Has (root : Node) (fault : CompileFault) : Prop :=
  ∃ node, root.Within node ∧ fault ∈ node.faults

theorem has_iff {node : Node} {fault : CompileFault} :
    node.Has fault ↔ fault ∈ node.faults ∨ ∃ part ∈ node.parts, part.Has fault := by
  constructor
  · rintro ⟨inner, within, found⟩
    cases within with
    | itself => exact Or.inl found
    | part here rest => exact Or.inr ⟨_, here, inner, rest, found⟩
  · rintro (found | ⟨part, here, inner, within, found⟩)
    · exact ⟨node, .itself node, found⟩
    · exact ⟨inner, .part here within, found⟩

/-- No part of a tree has to do with labels. -/
theorem concernsLabel_of_mem_faults {node : Node} {fault : CompileFault}
    (found : fault ∈ node.faults) : fault.concernsLabel = false := by
  unfold faults at found
  split at found
  · rw [List.mem_singleton.mp found]
    rfl
  · rw [List.mem_singleton.mp found]
    rfl
  · split at found
    · cases found
    · rw [List.mem_singleton.mp found]
      rfl
  · split at found
    · cases found
    · rw [List.mem_singleton.mp found]
      rfl
  · split at found
    · rw [List.mem_singleton.mp found]
      rfl
    · cases found
  · obtain ⟨⟨id, ident, _ | default⟩, _, found⟩ := List.mem_flatMap.mp found
    · cases found
    · rw [Param.faults] at found
      split at found
      · cases found
      · rw [List.mem_singleton.mp found]
        rfl
  · cases found

theorem Has.concernsLabel {root : Node} {fault : CompileFault} (found : root.Has fault) :
    fault.concernsLabel = false := by
  obtain ⟨node, _, found⟩ := found
  exact concernsLabel_of_mem_faults found

attribute [local simp] faults parts bodyOf operands

section

variable {fault : CompileFault}

theorem has_name {ident : Ident} : (Node.expr (.name ident)).Has fault ↔ False := by
  rw [has_iff]
  simp

theorem has_member {base : Expr} {field : Ident} {id : NodeId} :
    (Node.expr (.member base field id)).Has fault ↔ (Node.expr base).Has fault := by
  rw [has_iff]
  simp

theorem has_index {span : Span} {id : NodeId} {base index : Expr} :
    (Node.expr (.index span id base index)).Has fault ↔
      (Node.expr base).Has fault ∨ (Node.expr index).Has fault := by
  rw [has_iff]
  simp

theorem has_reference {span : Span} {id : NodeId} {inner : Expr} :
    (Node.expr (.reference span id inner)).Has fault ↔
      (Node.expr inner).Has fault ∨ inner.ungrouped.isCall = true ∧ fault = .referenceToCall := by
  rw [has_iff]
  by_cases call : inner.ungrouped.isCall = true
  · simp [call, or_comm]
  · simp [call]

theorem has_function {span : Span} {id : NodeId} {params : List Param} {stmts : List Stmt} :
    (Node.expr (.function span id params stmts)).Has fault ↔
      (fault ∈ params.flatMap Param.faults ∨
        ∃ default ∈ params.filterMap Param.default?, (Node.expr default).Has fault) ∨
        (Node.body stmts).Has fault := by
  rw [has_iff, or_assoc, or_comm (b := (Node.body stmts).Has fault)]
  simp

theorem has_body {stmts : List Stmt} :
    (Node.body stmts).Has fault ↔ ∃ stmt ∈ stmts, (Node.stmt false stmt).Has fault := by
  rw [has_iff]
  simp

end

theorem not_has_of_isSuper {expr : Expr} (isSuper : expr.isSuper = true) (fault : CompileFault) :
    ¬ (Node.expr expr).Has fault := by
  cases expr with
  | super span id =>
      rw [has_iff]
      simp
  | _ => exact nomatch isSuper

theorem not_has_of_literal {expr : Expr} (literal : (literalValue? expr).isSome = true)
    (fault : CompileFault) : ¬ (Node.expr expr).Has fault := by
  fun_induction literalValue? expr with
  | case1 | case2 | case3 | case4 =>
      rw [has_iff]
      simp
  | case5 span id operand value found ih =>
      have sound := ih (by rw [found]; rfl)
      rw [has_iff]
      simp [sound]
  | case6 => exact nomatch literal
  | case7 => exact nomatch literal

end Node

end Compiler

end MiniScript
