import MiniScript.Proofs.Code.Layout
import MiniScript.Proofs.Compiler.LoopNumbers

/-!
# Bodies have a layout

The code of a program, of a function and of a module, as the compiler finishes it, can
be run: a program at the outermost level, a body of its own in a frame of its own. It
has to have fewer loops than there are numbers for loops, since else two loops around
each other might share one.
-/

namespace MiniScript

open Compiler

namespace Compiler

variable {sourceName : Option String}

theorem accepted {α : Type} {outcome : Except CompileError α} (isOk : outcome.isOk = true) :
    ∃ result, outcome = .ok result := by
  cases outcome with
  | error error => exact nomatch isOk
  | ok result => exact ⟨result, rfl⟩

/-- The instructions of a body are those of its statements and, unless it ends in a `return`, its
closing. -/
theorem compileBody_steps {kind : BodyKind} {stmts : List Stmt}
    {functions result : Array Definition} {code : Code}
    (compiled : compileBody sourceName kind stmts functions = .ok (code, result)) :
    ∃ steps state, Yields (layStmts sourceName 0 none stmts) ⟨functions, 0⟩ steps state ∧
      code.instrs.toList =
        Builder.instrsOf steps ++ (if endsInReturn stmts then [] else closing kind) ∧
      result = state.functions := by
  obtain ⟨steps, state, ran, assembled, rfl⟩ := compileBody_eq_ok_iff.mp compiled
  have block := layStmts_written stmts ran
  have tail : Builder.instrsOf (if endsInReturn stmts then [] else emitSteps (closing kind)) =
      if endsInReturn stmts then [] else closing kind := by
    rw [apply_ite Builder.instrsOf, instrsOf_emitSteps]
    rfl
  refine ⟨steps, state, ran, ?_, rfl⟩
  rw [← tail, ← instrsOf_append]
  refine Builder.instrs_of_finish ?_ assembled
  rw [instrsOf_append, tail]
  refine List.forall_mem_append.mpr ⟨block.plain, fun instr member => ?_⟩
  split at member
  · exact nomatch member
  · exact closing_plain kind instr member

/-- The numbers suffice for the loops of a body. -/
theorem layStmts_few {stmts : List Stmt} {functions : Array Definition}
    {steps : List Builder.Step} {after : LayState} (few : FewLoops stmts)
    (ran : Yields (layStmts sourceName 0 none stmts) ⟨functions, 0⟩ steps after) :
    after.nextLoop < UInt32.size := by
  rw [(layStmts_takes sourceName stmts few.2 0 none _ _ _ ran).numbers, Nat.zero_add]
  exact few.1

theorem compileBody_block {kind : BodyKind} {stmts : List Stmt}
    {functions result : Array Definition} {code : Code} (few : FewLoops stmts)
    (compiled : compileBody sourceName kind stmts functions = .ok (code, result)) :
    ∃ instrs state, WrittenBlock 0 (stmtsSize stmts) none (endsInReturn stmts) ⟨functions, 0⟩ state
        instrs ∧
      state.nextLoop < UInt32.size ∧
        code.instrs.toList = instrs ++ (if endsInReturn stmts then [] else closing kind) := by
  obtain ⟨steps, state, ran, same, _⟩ := compileBody_steps compiled
  exact ⟨Builder.instrsOf steps, state, layStmts_written stmts ran, layStmts_few few ran, same⟩

/-- The functions that a body adds are compiled. -/
theorem compileBody_extends {kind : BodyKind} {stmts : List Stmt}
    {functions result : Array Definition} {code : Code} (few : FewLoops stmts)
    (compiled : compileBody sourceName kind stmts functions = .ok (code, result)) :
    Extends functions result := by
  obtain ⟨steps, state, ran, _, rfl⟩ := compileBody_eq_ok_iff.mp compiled
  exact (layStmts_takes sourceName stmts few.2 0 none _ _ _ ran).functions

/-- The code of a program can be run at the outermost level. -/
theorem compileProgram_laidOut {stmts : List Stmt} {functions result : Array Definition}
    {code : Code} (few : FewLoops stmts)
    (compiled : compileProgram sourceName stmts functions = .ok (code, result)) :
    ∃ places, LaidOut true code places := by
  obtain ⟨instrs, state, block, numbers, same⟩ := compileBody_block few compiled
  rw [closing, ite_self, List.append_nil] at same
  have segment : Segment true (fun _ _ => False) 0 code.instrs.toList (.level [])
      (some (.level [])) := by
    rw [same]
    exact block.runsOn numbers (fun _ member => nomatch member) trivial
  exact segment.laidOut fun slot known => ⟨rfl, (Option.some.inj known).symm⟩

end Compiler

/-- The code of a function or of the body of a module can be run in a frame of its own. -/
theorem Code.IsBody.laidOut {code : Code} (body : code.IsBody) :
    ∃ places, LaidOut false code places := by
  obtain ⟨sourceName, kind, stmts, functions, result, inner, few, compiled⟩ := body
  obtain ⟨instrs, state, block, numbers, same⟩ := compileBody_block few compiled
  have below : ∀ running ∈ ([] : List OpenLoop), running.id < 0 := fun _ member => nomatch member
  have segment : Segment false (fun _ _ => False) 0 code.instrs.toList (.level []) none := by
    rw [same]
    cases returns : endsInReturn stmts with
    | true =>
        have whole := block.segment numbers false (fun _ _ => False) [] below trivial
        rw [returns] at whole
        rw [if_pos rfl, List.append_nil]
        exact whole
    | false => exact (block.runsOn numbers below trivial).append (closing_segment inner _ _ _)
  exact segment.laidOut fun _ impossible => nomatch impossible

namespace Compiler

variable {sourceName : Option String}

/-- The instructions that call the body of a module and bind what it returns. -/
def moduleCall (body : FunctionRef) (module : String) : List Instr :=
  [{ op := .pushFunction, first := .func body }, withCount .callValue 0,
    { op := .assignVar, first := .name module }]

theorem moduleCall_plain (body : FunctionRef) (module : String) :
    ∀ instr ∈ moduleCall body module, instr.IsPlain := by
  simp only [moduleCall, List.forall_mem_cons, List.not_mem_nil, false_implies, implies_true,
    and_true]
  exact ⟨⟨rfl, rfl⟩, ⟨rfl, rfl⟩, rfl, rfl⟩

theorem moduleCall_segment (body : FunctionRef) (module : String) :
    Segment true (fun _ _ => False) 0 (moduleCall body module) (.level []) (some (.level [])) := by
  refine .cons _ (.straight 0 (.pushFunction _) (Places.orAt_new _ _ _)) ?_
  refine .cons _ (.straight 0 (.callValue 0) (Places.orAt_new _ _ _)) ?_
  exact .straight (.assignVar module) 0 []

/-- The code that runs a module calls its body and binds what that returns. -/
theorem compileModule_laidOut {module : String} {stmts : List Stmt}
    {functions result : Array Definition} {code : Code} (few : FewLoops stmts)
    (compiled : compileModule sourceName module stmts functions = .ok (code, result)) :
    (∃ places, LaidOut true code places) ∧ Extends functions result := by
  unfold compileModule at compiled
  cases ran : compileBody sourceName .module stmts functions with
  | error error =>
      rw [ran] at compiled
      cases compiled
  | ok pair =>
      obtain ⟨body, inner⟩ := pair
      simp only [ran, Bind.bind, Except.bind] at compiled
      split at compiled
      · cases compiled
      · rename_i code finished
        cases compiled
        have isCompiled : Definition.IsCompiled
            { name := none, params := [], body := .script body } := by
          rintro code ⟨⟩
          refine ⟨sourceName, .module, stmts, functions, inner, fun isProgram => ?_, few, ran⟩
          cases isProgram
        refine ⟨?_, (compileBody_extends few ran).push isCompiled⟩
        have laid : ∃ line, (({ sourceName } : Builder).applyAll ([.openSource line] ++
            emitSteps (moduleCall ⟨inner.size⟩ module) ++ [.closeSource] ++ [])).finish =
            .ok code :=
          ⟨_, finished⟩
        obtain ⟨line, laid⟩ := laid
        have only : Builder.instrsOf ([.openSource line] ++
            emitSteps (moduleCall ⟨inner.size⟩ module) ++ [.closeSource] ++ []) =
              moduleCall ⟨inner.size⟩ module := rfl
        have same := Builder.instrs_of_finish (only.symm ▸ moduleCall_plain _ _) laid
        rw [only] at same
        have segment := moduleCall_segment ⟨inner.size⟩ module
        rw [← same] at segment
        exact segment.laidOut fun slot known => ⟨rfl, (Option.some.inj known).symm⟩

end Compiler

end MiniScript
