import MiniScript.Proofs.Evaluation.Compiled
import MiniScript.Proofs.Machine.Bursts

/-!
# Programs driven to their end

The interpreter runs code in bursts. A program whose evaluation has a result is brought
to its end by enough of them, with the world that the evaluation leaves; only the clock
shows how long it took.
-/

namespace MiniScript

variable {σ : Type}

open World

namespace Setting

variable {setting : Setting σ} {start last : Point} {world after : World σ}

/-- The machine that has come to its end at a point. -/
def ended (setting : Setting σ) (point : Point) : Machine :=
  { setting.machine point with status := .finished }

/-- From anywhere inside a burst, instructions that lead to the end of the code are all carried
out, in this burst and the next ones. -/
theorem Leads.goOn (leads : setting.Leads start world (.ok last) after)
    (outside : setting.code.size ≤ last.position) (empty : last.stack = [])
    (keeps : setting.host.Keeps SameLimits) {between : World σ → World σ}
    (idle : ∀ world, between world = world) (positive : 1 ≤ world.limits.burstCycles)
    (budget : Nat) :
    ∃ enough, ∀ fuel, enough ≤ fuel →
      Machine.goOn setting.host between fuel
        ((setting.machine start).cycles setting.host (budget + 1) world) =
          { machine := setting.ended last, world := after } := by
  generalize same : (Except.ok last : Except RuntimeError Point) = reached at leads
  induction leads generalizing budget with
  | here point world =>
      cases same
      have stepped : (setting.machine last).step setting.host (World.poll setting.host) world =
          { machine := setting.ended last, world } := by
        rw [step_running, settle_of_le outside empty]
        exact if_neg nofun
      refine ⟨0, fun fuel _ => ?_⟩
      rw [Machine.cycles, Machine.runCycles, stepped]
      rfl
  | @step start next world middle after result instr fetched executed rest ih =>
      have stepped : (setting.machine start).step setting.host (World.poll setting.host) world =
          (setting.machine next).settle middle := by
        rw [step_eq fetched, executed]
        exact if_pos rfl
      have limits : middle.limits = world.limits := by
        have becomes : Becomes setting.host (world.pass 1000)
            (setting.execute start instr (world.pass 1000)).2 := Machine.becomes_execute _ _ _ _
        rw [executed] at becomes
        have same := becomes.sameLimits keeps
        exact same
      rcases Nat.lt_or_ge next.position setting.code.size with inside | beyond
      · rw [Machine.cycles, Machine.runCycles, stepped, settle_of_lt inside]
        cases budget with
        | zero =>
            -- The burst is over; the next one begins where it has stopped.
            obtain ⟨cycles, burst⟩ : ∃ cycles, middle.limits.burstCycles = cycles + 1 :=
              ⟨_, (Nat.sub_add_cancel (limits ▸ positive)).symm⟩
            obtain ⟨enough, ends⟩ := ih (limits ▸ positive) cycles same
            refine ⟨enough + 1, fun fuel many => ?_⟩
            obtain ⟨fuel, rfl⟩ := Nat.exists_eq_add_of_le' (Nat.le_of_add_left_le many)
            have more := ends fuel (Nat.le_of_succ_le_succ many)
            rw [← burst] at more
            have next : Machine.goOn setting.host between (fuel + 1)
                { machine := setting.machine next, world := middle } =
                  (setting.machine next).drive setting.host between (fuel + 1) (between middle) :=
              rfl
            exact next.trans ((congrArg _ (idle middle)).trans more)
        | succ budget => exact ih (limits ▸ positive) budget same
      · -- There is no instruction at the next point, so the run ends there.
        cases rest with
        | here =>
            cases same
            refine ⟨0, fun fuel _ => ?_⟩
            rw [Machine.cycles, Machine.runCycles, stepped, settle_of_le outside empty]
            rfl
        | step fetched =>
            obtain ⟨inside, _⟩ := Array.getElem?_eq_some_iff.mp fetched
            exact absurd inside (Nat.not_lt_of_le beyond)
        | fails => cases same
  | fails => cases same

end Setting

/-- A program that can be evaluated without an error is run to its end by enough bursts. -/
theorem Interpreter.run_of_evaluated {host : Host σ} (ignores : host.IgnoresClock)
    (keeps : host.Keeps SameLimits) (quiet : ∀ notice world, host.notify notice world = world)
    {sourceName : Option String} {stmts : List Stmt} {functions result : Array Definition}
    {code : Code} (few : Compiler.FewLoops stmts)
    (compiled : Compiler.compileProgram sourceName stmts functions = .ok (code, result))
    {rounds : Nat} {world final : World σ} (positive : 1 ≤ world.limits.burstCycles)
    (evaluated : (Evaluation.stmts host world.globals rounds stmts).Comes world (.ok .normal)
      final) :
    ∃ enough clock, ∀ fuel, enough ≤ fuel →
      Interpreter.run host fuel code world = (none, final.setClock clock) := by
  let setting : Setting σ := ⟨host, code, world.globals⟩
  have follows : setting.Follows ⟨0, [], []⟩ (.stmts host world.globals rounds stmts)
      (setting.leave none code.size [] []) :=
    Setting.compileProgram_follows rounds ignores few compiled
  obtain ⟨clock, leads⟩ := follows world _ final evaluated world.clock
  obtain ⟨cycles, burst⟩ : ∃ cycles, world.limits.burstCycles = cycles + 1 :=
    ⟨_, (Nat.sub_add_cancel positive).symm⟩
  obtain ⟨enough, ends⟩ := leads.goOn (Nat.le_refl _) rfl keeps
    (quiet .yielded) positive cycles
  refine ⟨enough + 1, clock, fun fuel many => ?_⟩
  obtain ⟨fuel, rfl⟩ := Nat.exists_eq_add_of_le' (Nat.le_of_add_left_le many)
  -- A machine that has not begun takes its first step as one that is running does.
  have driven : (spawn code world).drive host (host.notify .yielded) (fuel + 1) world =
      { machine := setting.ended (setting.leave none code.size [] [] .normal)
        world := final.setClock clock } := by
    rw [Machine.drive_succ, burst]
    exact ends fuel (Nat.le_of_succ_le_succ many)
  rw [Interpreter.run, quiet, driven]
  dsimp only
  rw [quiet]

end MiniScript
