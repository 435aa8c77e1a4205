import MiniScript.Proofs.Compiler.Bodies
import MiniScript.Proofs.Compiler.Faults
import MiniScript.Proofs.Parser.Trees

/-!
# Which trees are compiled

A computation that lays code out accounts for faults: it fails with one of them, and
it succeeds only where there is none. Parts that account for their own faults account,
one after the other, for the faults of the whole, so compiling fails exactly for the
trees that have a fault.
-/

namespace MiniScript

namespace Compiler

variable {α β : Type}

/-- A failure has one of the faults, and a success means that there is none. -/
def Settles (has : CompileFault → Prop) : Except CompileError (α × LayState) → Prop
  | .error error => has error.fault
  | .ok _ => ∀ fault, ¬ has fault

def Accounts (has : CompileFault → Prop) (computation : Lay α) : Prop :=
  ∀ before : LayState, Settles has (computation.run before)

namespace Accounts

variable {has first second : CompileFault → Prop} {computation : Lay α} {next : α → Lay β}

theorem congr (accounts : Accounts has computation) (same : ∀ fault, first fault ↔ has fault) :
    Accounts first computation := by
  rw [show first = has from funext fun fault => propext (same fault)]
  exact accounts

/-- What follows may rely on what came before. -/
theorem bindOf (start : Accounts first computation)
    (rest : ∀ value, (∃ before after, Yields computation before value after) →
      Accounts second (next value)) :
    Accounts (fun fault => first fault ∨ second fault) (computation >>= next) := by
  intro before
  have begun := start before
  rw [StateT.run_bind]
  cases ran : computation.run before with
  | error error =>
      rw [ran] at begun
      exact Or.inl begun
  | ok pair =>
      obtain ⟨value, middle⟩ := pair
      rw [ran] at begun
      have goes := rest value ⟨before, middle, ran⟩ middle
      show Settles _ ((next value).run middle)
      cases final : (next value).run middle with
      | error error =>
          rw [final] at goes
          exact Or.inr goes
      | ok result =>
          rw [final] at goes
          exact fun fault => not_or.mpr ⟨begun fault, goes fault⟩

theorem bind (start : Accounts first computation) (rest : ∀ value, Accounts second (next value)) :
    Accounts (fun fault => first fault ∨ second fault) (computation >>= next) :=
  start.bindOf fun value _ => rest value

/-- What always succeeds has no faults. -/
theorem ofYields (yields : ∀ before, ∃ value after, Yields computation before value after) :
    Accounts (fun _ => False) computation := by
  intro before
  obtain ⟨value, after, ran⟩ := yields before
  rw [show computation.run before = _ from ran]
  exact fun _ => id

theorem ofPure (value : α) : Accounts (fun _ => False) (pure value : Lay α) :=
  ofYields fun before => ⟨value, before, rfl⟩

/-- What comes after a computation that always succeeds. -/
theorem after (yields : ∀ before, ∃ value after, Yields computation before value after)
    (rest : ∀ value, Accounts second (next value)) : Accounts second (computation >>= next) :=
  ((ofYields yields).bind rest).congr fun _ => (or_iff_right id).symm

/-- The code of one part with other code around it. -/
theorem wrap (start : Accounts has computation) (around : α → β) :
    Accounts has (do let value ← computation; return around value) :=
  (start.bind fun value => ofPure (around value)).congr fun _ => (or_iff_left id).symm

theorem ofReject {fault : CompileFault} (found : has fault) (line : Nat) :
    Accounts has (reject fault line : Lay α) :=
  fun _ => found

theorem takeLoop : Accounts (fun _ => False) takeLoop :=
  ofYields fun _ => ⟨_, _, yields_takeLoop.mpr ⟨rfl, rfl⟩⟩

end Accounts

theorem compileParams_accounts (params : List Param) :
    Accounts (fun fault => fault ∈ params.flatMap Param.faults ∨
      ∃ default ∈ params.filterMap Param.default?, (Node.expr default).Has fault)
      (liftM (compileParams params)) := by
  induction params with
  | nil => exact (Accounts.ofPure _).congr fun _ => by simp
  | cons param rest ih =>
      obtain ⟨id, ident, default⟩ := param
      cases default with
      | none =>
          rw [compileParams, liftM_bind]
          refine (ih.wrap _).congr fun fault => ?_
          simp [Param.faults, Param.default?]
      | some default =>
          rw [compileParams]
          split
          · rename_i none
            refine .ofReject (Or.inl ?_) _
            simp [Param.faults, none]
          · rename_i value found
            rw [liftM_bind]
            refine (ih.wrap _).congr fun fault => ?_
            have sound := Node.not_has_of_literal (by rw [found]; rfl) fault
            simp [Param.faults, Param.default?, found, sound]

/-- Steps without labels can be finished. -/
theorem assemble_of_plain (sourceName : Option String) (kind : BodyKind) (stmts : List Stmt)
    {steps : List Builder.Step} (plain : ∀ instr ∈ Builder.instrsOf steps, instr.IsPlain) :
    ∃ code, assemble sourceName kind stmts steps = .ok code := by
  have tail : ∀ instr ∈ Builder.instrsOf (if endsInReturn stmts then [] else
      emitSteps (closing kind)), instr.IsPlain := by
    split
    · exact fun _ member => nomatch member
    · rw [instrsOf_emitSteps]
      exact closing_plain kind
  have whole := List.forall_mem_append.mpr ⟨plain, tail⟩
  rw [← instrsOf_append, ← List.nil_append (Builder.instrsOf _),
    ← show (Builder.applyAll { sourceName } (steps ++ _)).instrs.toList = [] ++ _ from
      Builder.applyAll_instrs _ _] at whole
  unfold assemble Builder.finish
  simp only [Builder.closeAll_instrs, Builder.resolveFirsts_of_plain _ _ _ whole,
    Builder.resolveSeconds_of_plain _ _ _ whole, Bind.bind, Except.bind]
  exact ⟨_, rfl⟩

/-- Statements that account for their faults, put together as the code of a body. -/
theorem Accounts.assembled {has : CompileFault → Prop} {body : Lay (List Builder.Step)}
    {next : Code → Lay β} (accounts : Accounts has body) (sourceName : Option String)
    (kind : BodyKind) (stmts : List Stmt)
    (plain : ∀ steps before after, Yields body before steps after →
      ∀ instr ∈ Builder.instrsOf steps, instr.IsPlain)
    (rest : ∀ code before, ∃ value after, Yields (next code) before value after) :
    Accounts has (do
      let steps ← body
      let code ← assemble sourceName kind stmts steps
      next code) := by
  refine (accounts.bindOf fun steps ⟨_, _, ran⟩ => .ofYields fun before => ?_).congr
    fun _ => (or_iff_left id).symm
  obtain ⟨code, assembled⟩ := assemble_of_plain sourceName kind stmts (plain _ _ _ ran)
  obtain ⟨value, after, goes⟩ := rest code before
  exact ⟨value, after, yields_bind.mpr ⟨code, before, yields_lift.mpr ⟨assembled, rfl⟩, goes⟩⟩

/-- What keeps an expression from being compiled in a mode. A call has a value only. -/
def Lacks (mode : Mode) (expr : Expr) (fault : CompileFault) : Prop :=
  (Node.expr expr).Has fault ∨
    mode = .read ∧ expr.ungrouped.isCall = true ∧ fault = .referenceToCall

theorem lacks_invoke {expr : Expr} {fault : CompileFault} :
    Lacks .invoke expr fault ↔ (Node.expr expr).Has fault :=
  or_iff_left fun read => nomatch read.1

/-- In most expressions only an operand can be at fault. -/
theorem lacks_iff_operands {mode : Mode} {expr : Expr} {fault : CompileFault}
    (sound : (Node.expr expr).faults = []) (noBody : Node.bodyOf expr = none)
    (noCall : expr.ungrouped.isCall = false) :
    Lacks mode expr fault ↔ ∃ operand ∈ Node.operands expr, (Node.expr operand).Has fault := by
  rw [Lacks, Node.has_iff]
  simp [sound, noCall, Node.parts, noBody]

theorem lacks_call {mode : Mode} (invoked : mode ≠ .read) {span : Span} {id : NodeId}
    {callee : Expr} {args : List Expr} {fault : CompileFault} :
    Lacks mode (.call span id callee args) fault ↔
      (Node.expr callee).Has fault ∨ ∃ arg ∈ args, (Node.expr arg).Has fault := by
  rw [Lacks, Node.has_iff]
  simp [invoked, Node.faults, Node.parts, Node.bodyOf, Node.operands]

theorem Accounts.invoked {expr : Expr} {computation : Lay α}
    (accounts : Accounts (Lacks .invoke expr) computation) :
    Accounts (Node.expr expr).Has computation :=
  accounts.congr fun _ => lacks_invoke.symm

variable {sourceName : Option String}

theorem layExpr_call_read (position : Nat) (span : Span) (id : NodeId) (callee : Expr)
    (args : List Expr) :
    layExpr sourceName .read position (.call span id callee args) =
      reject .referenceToCall span.line := by
  cases callee <;> simp only [layExpr, if_true]

mutual

theorem layExpr_accounts (expr : Expr) (mode : Mode) (position : Nat) :
    Accounts (Lacks mode expr) (layExpr sourceName mode position expr) := by
  cases expr with
  | number | text | bool | null | name | self | super =>
      rw [layExpr]
      refine (Accounts.ofPure _).congr fun fault => ?_
      refine (lacks_iff_operands rfl rfl rfl).trans ?_
      simp [Node.operands]
  | unary op span id operand =>
      rw [layExpr]
      refine ((layExpr_accounts operand .invoke _).invoked.wrap _).congr fun fault => ?_
      refine (lacks_iff_operands rfl rfl rfl).trans ?_
      simp [Node.operands]
  | binary left op span id right =>
      rw [layExpr]
      refine ((layExpr_accounts left .invoke _).invoked.bind fun first =>
        (layExpr_accounts right .invoke _).invoked.wrap _).congr fun fault => ?_
      refine (lacks_iff_operands rfl rfl rfl).trans ?_
      simp [Node.operands]
  | logic left op span id right =>
      rw [layExpr]
      refine ((layExpr_accounts left .invoke _).invoked.bind fun first =>
        (layExpr_accounts right .invoke _).invoked.wrap _).congr fun fault => ?_
      refine (lacks_iff_operands rfl rfl rfl).trans ?_
      simp [Node.operands]
  | chain span id items ops =>
      cases items with
      | nil =>
          rw [layExpr]
          refine (Accounts.ofPure _).congr fun fault => ?_
          refine (lacks_iff_operands rfl rfl rfl).trans ?_
          simp [Node.operands]
      | cons first rest =>
          rw [layExpr]
          split
          · rename_i same
            refine ((layExpr_accounts first .invoke _).invoked.bind fun head =>
              (layLinks_accounts rest (by rw [List.length_map, same]) _ _).wrap _).congr
                fun fault => ?_
            have sound : (Node.expr (.chain span id (first :: rest) ops)).faults = [] := if_pos same
            refine (lacks_iff_operands sound rfl rfl).trans ?_
            simp [Node.operands]
          · rename_i other
            exact .ofReject (Or.inl (Node.has_iff.mpr (Or.inl (by simp [Node.faults, other])))) _
  | group span id inner =>
      rw [layExpr]
      refine (layExpr_accounts inner mode position).congr fun fault => ?_
      rw [Lacks, Node.has_iff]
      simp [Lacks, Node.faults, Node.parts, Node.bodyOf, Node.operands, Expr.ungrouped]
  | list span id items =>
      rw [layExpr]
      refine ((layExprs_accounts items _).wrap _).congr fun fault => ?_
      refine (lacks_iff_operands rfl rfl rfl).trans ?_
      simp [Node.operands]
  | map span id entries =>
      rw [layExpr]
      refine ((layEntries_accounts entries _).wrap _).congr fun fault => ?_
      refine (lacks_iff_operands rfl rfl rfl).trans ?_
      simp only [Node.operands, List.mem_flatMap, List.mem_cons, List.not_mem_nil, or_false]
      constructor
      · rintro ⟨operand, ⟨entry, member, rfl | rfl⟩, found⟩
        · exact ⟨entry, member, Or.inl found⟩
        · exact ⟨entry, member, Or.inr found⟩
      · rintro ⟨entry, member, found | found⟩
        · exact ⟨entry.1, ⟨entry, member, Or.inl rfl⟩, found⟩
        · exact ⟨entry.2, ⟨entry, member, Or.inr rfl⟩, found⟩
  | index span id base index =>
      rw [layExpr]
      refine ((layExpr_accounts base .invoke _).invoked.bind fun first =>
        (layExpr_accounts index .invoke _).invoked.wrap _).congr fun fault => ?_
      refine (lacks_iff_operands rfl rfl rfl).trans ?_
      simp [Node.operands]
  | member base field id =>
      rw [layExpr]
      split
      · rename_i isSuper
        refine (Accounts.ofPure _).congr fun fault => ?_
        refine (lacks_iff_operands rfl rfl rfl).trans ?_
        simp [Node.operands, Node.not_has_of_isSuper isSuper]
      · refine ((layExpr_accounts base .invoke _).invoked.wrap _).congr fun fault => ?_
        refine (lacks_iff_operands rfl rfl rfl).trans ?_
        simp [Node.operands]
  | slice span id base first last =>
      rw [layExpr]
      refine ((layExpr_accounts base .invoke _).invoked.bind fun target =>
        (layBound_accounts first _).bind fun low =>
          (layBound_accounts last _).wrap _).congr fun fault => ?_
      refine (lacks_iff_operands rfl rfl rfl).trans ?_
      simp [Node.operands, or_and_right, exists_or]
  | call span id callee args =>
      have arguments position := layExprs_accounts args position
      have whole position := (layExpr_accounts callee .invoke position).invoked
      by_cases read : mode = .read
      · have refused (line : Nat) : Accounts (Lacks mode (.call span id callee args))
            (reject .referenceToCall line : Lay (List Instr)) :=
          .ofReject (Or.inr ⟨read, rfl, rfl⟩) line
        rw [read, layExpr_call_read, ← read]
        exact refused _
      · cases callee with
        | name ident =>
            rw [layExpr, if_neg read]
            split
            · exact ((arguments _).wrap _).congr fun fault => by
                simp [lacks_call read, Node.has_name]
            · exact ((arguments _).wrap _).congr fun fault => by
                simp [lacks_call read, Node.has_name]
        | member base field id =>
            rw [layExpr, if_neg read]
            split
            · rename_i isSuper
              refine ((arguments _).wrap _).congr fun fault => ?_
              simp [lacks_call read, Node.has_member, Node.not_has_of_isSuper isSuper]
            · refine ((layExpr_accounts base .invoke _).invoked.bind fun target =>
                (arguments _).wrap _).congr fun fault => ?_
              simp [lacks_call read, Node.has_member]
        | index span id base index =>
            rw [layExpr, if_neg read]
            refine ((layExpr_accounts base .invoke _).invoked.bind fun target =>
              (layExpr_accounts index .invoke _).invoked.bind fun key =>
                (arguments _).wrap _).congr fun fault => ?_
            simp [lacks_call read, Node.has_index, or_assoc]
        | _ =>
            rw [layExpr, if_neg read]
            · exact ((whole _).bind fun target => (arguments _).wrap _).congr
                fun fault => lacks_call read
            all_goals nofun
  | reference span id inner =>
      rw [layExpr]
      refine (layExpr_accounts inner .read position).congr fun fault => ?_
      exact (or_iff_left fun read => nomatch read.2.1).trans
        (Node.has_reference.trans (or_congr_right ⟨fun call => ⟨rfl, call⟩, And.right⟩))
  | function span id params body =>
      rw [layExpr]
      refine ((compileParams_accounts params).bind fun parameters => Accounts.after
        (fun before => ⟨_, _, yields_get.mpr ⟨rfl, rfl⟩⟩) fun outer => .after
          (fun before => ⟨⟨⟩, _, yields_set.mpr rfl⟩) fun _ =>
            (layStmts_accounts body 0 none).assembled sourceName .function body
              (fun steps before after ran => (layStmts_written body ran).plain)
                fun code before => ?_).congr fun fault => ?_
      · simp only [yields_bind, yields_get, yields_set, yields_takeFunction, yields_pure]
        exact ⟨_, _, _, _, ⟨rfl, rfl⟩, ⟨⟩, _, rfl, _, _, ⟨rfl, rfl⟩, rfl, rfl⟩
      · exact (or_iff_left fun read => nomatch read.2.1).trans
          (Node.has_function.trans (or_congr_right Node.has_body))

theorem layLinks_accounts (items : List Expr) {ops : List BinaryOp}
    (same : ops.length = items.length) (failure position : Nat) :
    Accounts (fun fault => ∃ item ∈ items, (Node.expr item).Has fault)
      (layLinks sourceName failure position ops items) := by
  cases items with
  | nil =>
      cases ops with
      | nil =>
          rw [layLinks]
          · exact (Accounts.ofPure _).congr fun fault => by simp
          · nofun
      | cons => cases same
  | cons item rest =>
      cases ops with
      | nil => cases same
      | cons op ops =>
          rw [layLinks]
          refine ((layExpr_accounts item .invoke _).invoked.bind fun code =>
            (layLinks_accounts rest (Nat.succ.inj same) _ _).wrap _).congr fun fault => ?_
          simp

theorem layExprs_accounts (items : List Expr) (position : Nat) :
    Accounts (fun fault => ∃ item ∈ items, (Node.expr item).Has fault)
      (layExprs sourceName position items) := by
  cases items with
  | nil =>
      rw [layExprs]
      exact (Accounts.ofPure _).congr fun fault => by simp
  | cons item rest =>
      rw [layExprs]
      refine ((layExpr_accounts item .invoke _).invoked.bind fun code =>
        (layExprs_accounts rest _).wrap _).congr fun fault => ?_
      simp

theorem layEntries_accounts (entries : List (Expr × Expr)) (position : Nat) :
    Accounts (fun fault => ∃ entry ∈ entries,
      (Node.expr entry.1).Has fault ∨ (Node.expr entry.2).Has fault)
      (layEntries sourceName position entries) := by
  cases entries with
  | nil =>
      rw [layEntries]
      exact (Accounts.ofPure _).congr fun fault => by simp
  | cons entry rest =>
      obtain ⟨key, value⟩ := entry
      rw [layEntries]
      refine ((layExpr_accounts key .invoke _).invoked.bind fun first =>
        (layExpr_accounts value .invoke _).invoked.bind fun second =>
          (layEntries_accounts rest _).wrap _).congr fun fault => ?_
      simp [or_assoc]

theorem layBound_accounts (bound : Option Expr) (position : Nat) :
    Accounts (fun fault => ∃ expr ∈ bound, (Node.expr expr).Has fault)
      (layBound sourceName position bound) := by
  cases bound with
  | none =>
      rw [layBound]
      exact (Accounts.ofPure _).congr fun fault => by simp
  | some bound =>
      rw [layBound]
      exact (layExpr_accounts bound .invoke _).invoked.congr fun fault => by simp

theorem layStmt_accounts (stmt : Stmt) (position : Nat) (loop : Option LoopPlace) :
    Accounts (Node.stmt loop.isSome stmt).Has
      (layStmt sourceName position loop stmt) := by
  cases stmt with
  | expr id value =>
      rw [layStmt]
      refine ((layExpr_accounts value .invoke _).invoked.wrap _).congr fun fault => ?_
      rw [Node.has_iff]
      simp [Node.faults, Node.parts]
  | assign id target op value =>
      cases target with
      | name ident =>
          cases op with
          | none =>
              rw [layStmt]
              refine ((layExpr_accounts value .invoke _).invoked.wrap _).congr
                fun fault => ?_
              rw [Node.has_iff]
              simp [Node.faults, Node.parts, Parser.isTarget, Node.has_name]
          | some op =>
              rw [layStmt]
              refine ((layExpr_accounts value .invoke _).invoked.wrap _).congr
                fun fault => ?_
              rw [Node.has_iff]
              simp [Node.faults, Node.parts, Parser.isTarget, Node.has_name]
      | member base field id =>
          rw [layStmt]
          refine ((layExpr_accounts base .invoke _).invoked.bind fun target =>
            (layExpr_accounts value .invoke _).invoked.wrap _).congr fun fault => ?_
          rw [Node.has_iff]
          simp [Node.faults, Node.parts, Parser.isTarget, Node.has_member]
      | index span id base index =>
          rw [layStmt]
          refine ((layExpr_accounts base .invoke _).invoked.bind fun target =>
            (layExpr_accounts index .invoke _).invoked.bind fun key =>
              (layExpr_accounts value .invoke _).invoked.wrap _).congr fun fault => ?_
          rw [Node.has_iff]
          simp [Node.faults, Node.parts, Parser.isTarget, Node.has_index, or_assoc]
      | _ =>
          rw [layStmt]
          · refine .ofReject (Node.has_iff.mpr (Or.inl ?_)) _
            simp [Node.faults, Parser.isTarget]
          all_goals nofun
  | ifElse id span condition thenBranch elseBranch =>
      cases elseBranch with
      | none =>
          rw [layStmt]
          refine ((layExpr_accounts condition .invoke _).invoked.bind fun test =>
            (layStmts_accounts thenBranch _ loop).wrap _).congr fun fault => ?_
          rw [Node.has_iff]
          simp [Node.faults, Node.parts]
      | some elseBranch =>
          rw [layStmt]
          refine ((layExpr_accounts condition .invoke _).invoked.bind fun test =>
            (layStmts_accounts thenBranch _ loop).bind fun branch =>
              (layStmts_accounts elseBranch _ loop).wrap _).congr fun fault => ?_
          rw [Node.has_iff]
          simp [Node.faults, Node.parts, or_and_right, exists_or]
  | whileLoop id span condition body =>
      have inside (position : Nat) (target : LoopPlace) :
          Accounts (fun fault => ∃ stmt ∈ body, (Node.stmt true stmt).Has fault)
            (layStmts sourceName position (some target) body) :=
        layStmts_accounts body position (some target)
      rw [layStmt]
      refine ((layExpr_accounts condition .invoke _).invoked.bind fun test =>
        (inside _ _).wrap _).congr fun fault => ?_
      rw [Node.has_iff]
      simp [Node.faults, Node.parts]
  | forLoop id span var iter body =>
      have inside (position : Nat) (target : LoopPlace) :
          Accounts (fun fault => ∃ stmt ∈ body, (Node.stmt true stmt).Has fault)
            (layStmts sourceName position (some target) body) :=
        layStmts_accounts body position (some target)
      rw [layStmt]
      refine (Accounts.takeLoop.bind fun id =>
        (layExpr_accounts iter .invoke _).invoked.bind fun source =>
          (inside _ _).wrap _).congr fun fault => ?_
      rw [Node.has_iff]
      simp [Node.faults, Node.parts]
  | breakLoop id span =>
      rcases loop with _ | ⟨start, stop⟩ | number
      · rw [layStmt]
        exact .ofReject (Node.has_iff.mpr (Or.inl (List.mem_singleton.mpr rfl))) _
      all_goals
        rw [layStmt]
        refine (Accounts.ofPure _).congr fun fault => ?_
        rw [Node.has_iff]
        simp [Node.faults, Node.parts]
  | continueLoop id span =>
      rcases loop with _ | ⟨start, stop⟩ | number
      · rw [layStmt]
        exact .ofReject (Node.has_iff.mpr (Or.inl (List.mem_singleton.mpr rfl))) _
      all_goals
        rw [layStmt]
        refine (Accounts.ofPure _).congr fun fault => ?_
        rw [Node.has_iff]
        simp [Node.faults, Node.parts]
  | returnValue id span value =>
      rw [layStmt]
      refine ((layBound_accounts value _).wrap _).congr fun fault => ?_
      rw [Node.has_iff]
      simp [Node.faults, Node.parts]

theorem layStmts_accounts (stmts : List Stmt) (position : Nat) (loop : Option LoopPlace) :
    Accounts (fun fault => ∃ stmt ∈ stmts, (Node.stmt loop.isSome stmt).Has fault)
      (layStmts sourceName position loop stmts) := by
  cases stmts with
  | nil =>
      rw [layStmts]
      exact (Accounts.ofPure _).congr fun fault => by simp
  | cons stmt rest =>
      rw [layStmts]
      refine ((layStmt_accounts stmt _ loop).bind fun steps =>
        (layStmts_accounts rest _ loop).wrap _).congr fun fault => ?_
      simp

end

/-- A body that is compiled has no fault, and one that is not has the fault that is reported. -/
theorem compileBody_settles (kind : BodyKind) (stmts : List Stmt) (functions : Array Definition) :
    match compileBody sourceName kind stmts functions with
    | .error error => (Node.body stmts).Has error.fault
    | .ok _ => ∀ fault, ¬ (Node.body stmts).Has fault := by
  have accounts : Accounts (Node.body stmts).Has (do
      let steps ← layStmts sourceName 0 none stmts
      assemble sourceName kind stmts steps) := by
    have begun : Accounts _ (layStmts sourceName 0 none stmts) := layStmts_accounts stmts 0 none
    have whole := (begun.assembled sourceName kind stmts
      (fun _ _ _ ran => (layStmts_written stmts ran).plain)
        fun code before => ⟨code, before, yields_pure.mpr ⟨rfl, rfl⟩⟩).congr fun _ => Node.has_body
    simp only [bind_pure] at whole
    exact whole
  have settles := accounts ⟨functions, 0⟩
  rw [compileBody_eq_layBody]
  unfold layBody
  dsimp only
  generalize StateT.run _ _ = outcome at settles
  cases outcome with
  | error error => exact settles
  | ok pair => exact settles

theorem compileBody_error {kind : BodyKind} {stmts : List Stmt} {functions : Array Definition}
    {error : CompileError} (failed : compileBody sourceName kind stmts functions = .error error) :
    (Node.body stmts).Has error.fault := by
  have settles := @compileBody_settles sourceName kind stmts functions
  rw [failed] at settles
  exact settles

theorem compileBody_ok_of_sound (kind : BodyKind) {stmts : List Stmt}
    (sound : ∀ fault, ¬ (Node.body stmts).Has fault) (functions : Array Definition) :
    ∃ code result, compileBody sourceName kind stmts functions = .ok (code, result) := by
  cases compiled : compileBody sourceName kind stmts functions with
  | error error => exact absurd (compileBody_error compiled) (sound error.fault)
  | ok pair => exact ⟨pair.1, pair.2, rfl⟩

theorem compileBody_plain {kind : BodyKind} {stmts : List Stmt}
    {functions result : Array Definition} {code : Code}
    (compiled : compileBody sourceName kind stmts functions = .ok (code, result)) :
    ∀ instr ∈ code.instrs.toList, instr.IsPlain := by
  obtain ⟨steps, state, ran, same, _⟩ := compileBody_steps compiled
  rw [same]
  refine List.forall_mem_append.mpr ⟨(layStmts_written stmts ran).plain, fun instr member => ?_⟩
  split at member
  · exact nomatch member
  · exact closing_plain kind instr member

/-- A program is compiled unless something in it is at fault, and the error names such a fault: no
label is bound twice or never, and none is left in the code. Of the faults, the parser lets pass
only a `break` or `continue` outside of a loop and a reference to the result of a call. -/
theorem compileProgram_fails_iff (sourceName : Option String) (stmts : List Stmt)
    (functions : Array Definition) :
    ((∃ error, compileProgram sourceName stmts functions = .error error) ↔
      ∃ fault, (Node.body stmts).Has fault) ∧
    (∀ error, compileProgram sourceName stmts functions = .error error →
      (Node.body stmts).Has error.fault ∧ error.fault.concernsLabel = false) ∧
    (∀ code result, compileProgram sourceName stmts functions = .ok (code, result) →
      ∀ instr ∈ code.instrs.toList, instr.IsPlain) ∧
    (∀ tokens, Program.ofTokens tokens = .ok stmts → ∀ fault, (Node.body stmts).Has fault →
      fault = .breakOutsideLoop ∨ fault = .continueOutsideLoop ∨ fault = .referenceToCall) := by
  refine ⟨⟨fun ⟨error, failed⟩ => ⟨error.fault, compileBody_error failed⟩, ?_⟩, ?_, ?_, ?_⟩
  · rintro ⟨fault, found⟩
    have settles := @compileBody_settles sourceName .program stmts functions
    cases compiled : compileBody sourceName .program stmts functions with
    | error error => exact ⟨error, compiled⟩
    | ok pair =>
        rw [compiled] at settles
        exact absurd found (settles fault)
  · intro error failed
    have found := compileBody_error failed
    exact ⟨found, found.concernsLabel⟩
  · intro code result compiled
    exact compileBody_plain compiled
  · intro tokens read fault found
    have survives := Program.survivesReading_of_ofTokens read found
    cases fault with
    | breakOutsideLoop | continueOutsideLoop | referenceToCall => simp
    | _ => exact nomatch survives

/-- A `break` by itself is read but not compiled. -/
theorem compileProgram_fails_at_break :
    let tokens : List Token := [⟨.keyword .break, ⟨0, 5, 1⟩, false⟩, ⟨.endOfFile, ⟨5, 5, 1⟩, false⟩]
    let stmts : List Stmt := [.breakLoop 1 ⟨0, 5, 1⟩]
    Program.ofTokens tokens = .ok stmts ∧
      (∃ error, compileProgram none stmts #[] = .error error) ∧
      ∀ fault, (Node.body stmts).Has fault →
        fault = .breakOutsideLoop ∨ fault = .continueOutsideLoop ∨ fault = .referenceToCall := by
  intro tokens stmts
  have facts := compileProgram_fails_iff none stmts #[]
  have read : Program.ofTokens tokens = .ok stmts := by rfl
  refine ⟨read, facts.1.mpr ⟨.breakOutsideLoop, ?_⟩, facts.2.2.2 tokens read⟩
  rw [Node.has_body]
  exact ⟨_, List.mem_singleton.mpr rfl,
    Node.has_iff.mpr (Or.inl (List.mem_singleton.mpr rfl))⟩

end Compiler

end MiniScript
