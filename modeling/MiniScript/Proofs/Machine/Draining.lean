import MiniScript.Proofs.Library.Effect
import MiniScript.Proofs.Heap.Filing
import MiniScript.Proofs.Machine.Loops

/-!
# Maps that are drained and read

`pop` takes the first key of a map and then looks that key up to remove it; a loop over
a map takes the keys first and looks each of them up in its turn. Both find what has been
stored as long as nobody changes the keys. NaN is the exception: it is a key that no
lookup finds, so it cannot be popped out of a map and a loop sees null for its value.
-/

namespace MiniScript

open Compiler

variable {σ : Type} {host : Host σ} {map : MapRef} {entry : Entry} {rest : List Entry}

/-! ## Popping -/

namespace Library

/-- `pop` answers the first key, and removes it unless it is NaN. -/
theorem pop_first {world : World σ} (orderly : world.heap.Orderly map)
    (first : world.heap.entries map = entry :: rest) {call : Invocation}
    (receiver : call.arg 0 = .map map) :
    ∃ after, routine .pop call world = (.ok ⟨.ready entry.key, false⟩, after) ∧
      after.heap = world.heap.remove map entry.key ∧
      after.heap.entries map = if entry.key.isNaN then entry :: rest else rest := by
  have accepted : effect world .pop call = .ok
      { change := fun heap => heap.remove map entry.key, answer := .plain entry.key } := by
    simp only [effect, pop, receiver, first]
  refine ⟨world.modifyHeap fun heap => heap.remove map entry.key, ?_, rfl,
    orderly.entries_remove first⟩
  rw [routine_eq, accepted]
  rfl

/-- The answers of calls of `pop` on the map, one after the other, and the world then. Anything may
happen in between that leaves the map and its keys alone. -/
inductive Pops (map : MapRef) (first : World σ) : List Value → World σ → Prop
  | start : Pops map first [] first
  | meanwhile {keys : List Value} {world after : World σ} (before : Pops map first keys world)
      (spares : world.heap.Spares map after.heap) : Pops map first keys after
  | pop {keys : List Value} {world after : World σ} {call : Invocation} {key : Value}
      {yields : Bool} (before : Pops map first keys world) (receiver : call.arg 0 = .map map)
      (answered : routine .pop call world = (.ok ⟨.ready key, yields⟩, after)) :
      Pops map first (keys ++ [key]) after

/-- The keys come out in the order of the entries. -/
theorem Pops.keys {first world : World σ} {keys : List Value} (pops : Pops map first keys world)
    (built : Heap.Built map first.heap)
    (numbers : ∀ entry ∈ first.heap.entries map, entry.key.isNaN = false)
    (enough : keys.length ≤ (first.heap.entries map).length) :
    keys = ((first.heap.entries map).take keys.length).map (·.key) ∧
      Heap.Built map world.heap ∧
      world.heap.entries map = (first.heap.entries map).drop keys.length := by
  -- What goes along is that the map is still built, and which of the entries are left.
  induction pops with
  | start => exact ⟨rfl, built, rfl⟩
  | meanwhile before spares ih =>
      obtain ⟨keys, built, left⟩ := ih enough
      exact ⟨keys, built.meanwhile spares, spares.entries.trans left⟩
  | @pop keys world after call key yields before receiver answered ih =>
      rw [List.length_append, List.length_singleton] at enough ⊢
      obtain ⟨same, built, left⟩ := ih (Nat.le_of_succ_le enough)
      rw [List.drop_eq_getElem_cons enough] at left
      obtain ⟨_, known, removed, now⟩ := pop_first built.orderly left receiver
      cases answered.symm.trans known
      rw [numbers _ (List.getElem_mem enough), if_neg Bool.false_ne_true] at now
      refine ⟨?_, removed ▸ built.remove _, now⟩
      rw [List.take_add_one, List.getElem?_eq_getElem enough, List.map_append, ← same]
      rfl

end Library

/-! ## Loops over maps -/

/-- The instruction of the visit stores in the variable a new record of the key and the value. -/
def Visit.BindsRecord (host : Host σ) (var : String) (visit : Visit σ) (key value : Value) : Prop :=
  ∃ instr next after object, visit.machine.Executes host visit.world instr next after ∧
    object.entries.map (fun entry => (entry.key, entry.value)) =
      [(.text "key", key), (.text "value", value)] ∧
    ((visit.world.pass 1000).modifyHeap (Draft.map object).addTo).store host visit.vars (.text var)
        (.map ⟨visit.world.heap.maps.size⟩) = (.ok (), after) ∧
    (visit.vars.index < after.heap.maps.size →
      after.heap.getNamed? visit.vars var = some (.map ⟨visit.world.heap.maps.size⟩))

theorem Visit.Binds.record {var : String} {visit : Visit σ} {key : Value}
    (binds : visit.Binds host var (some map) key) :
    visit.BindsRecord host var key ((visit.world.heap.get? map key).getD .null) := by
  obtain ⟨instr, next, after, value, heap, executes, offers, stored, found⟩ := binds
  cases offers with
  | record _ object entries => exact ⟨instr, next, after, object, executes, entries, stored, found⟩

namespace Machine

/-- A frame goes through a loop that has been compiled, in a body with enough numbers for its loops:
the loop has been set up in the visit `creation`, the visits since then are `later`, the last one
first, and the frame is still in the loop and about to act. -/
inductive GoesThrough (host : Host σ) (loop : ForLoop) (creation : Visit σ)
    (later : List (Visit σ)) (outer : List Frame) : Machine → World σ → Prop
  | intro {sourceName : Option String} {kind : BodyKind} {stmts : List Stmt}
      {functions result : Array Definition} {code : Code} {earlier : List (Visit σ)}
      {first machine : Machine} {initial world : World σ} (few : FewLoops stmts)
      (compiled : compileBody sourceName kind stmts functions = .ok (code, result))
      (member : loop ∈ stmtsForLoops 0 stmts) (same : first.frame.code = code)
      (active : first.Active) (callers : first.callers = outer) (begins : first.Stands outer)
      (tenure : Tenure host outer first initial (later ++ creation :: earlier) machine world)
      (creates : creation.position = loop.create)
      (running : ∀ visit ∈ later, visit.position ≠ loop.stop) (there : machine.position ≠ loop.stop)
      (acts : machine.Acts outer) : GoesThrough host loop creation later outer machine world

variable {loop : ForLoop} {creation : Visit σ} {later : List (Visit σ)} {outer : List Frame}
variable {machine : Machine} {world : World σ}

/-- The turns of a loop over a map are those of the keys that it has when the loop is set up. -/
theorem GoesThrough.overMap (goes : GoesThrough host loop creation later outer machine world)
    {below : List Value} (held : creation.machine.stack = .map map :: below) :
    let keys := ((creation.world.heap.entries map).map (·.key)).toArray
    ∃ id, List.Forall₂ (Visit.Binds host loop.var (some map)) (loop.turned later)
        (keys.toList.take (loop.turned later).length) ∧
      ∀ instr next after, { machine with status := .running }.Executes host world instr next after →
        instr.op = .return ∧ outer = next.frame :: next.callers ∨
          ∃ frame, frame :: outer <:+ next.frame :: next.callers ∧
            Visit.Turns host loop id keys (some map) (loop.turned later).length
              ⟨{ machine with status := .running }, world⟩ frame := by
  intro keys
  obtain ⟨few, compiled, member, same, active, callers, begins, tenure, creates, running, there,
    acts⟩ := goes
  obtain ⟨id, part, places, items, source, subject, others, layout, taken, visited, bound, turning,
    placed, sameNow, top⟩ :=
    tenure.inLoop few compiled member same active callers begins creates running there acts
  cases held.symm.trans taken
  cases visited
  exact ⟨id, bound, fun instr next after executes =>
    executes.inLoop layout top sameNow turning placed⟩

/-- Maps can be drained and read back. A key has the value that was stored last under it. `pop`
always succeeds and answers the first key, and so many calls of it take so many entries off the
front and answer their keys. In a loop that leaves the map alone the turns bind the variable to
records of the entries, one after the other, and there is a turn for each of them unless the loop is
left before. NaN, the only key that is not equal to itself, is not found: `pop` answers it without
removing it, and a loop has null for its value. -/
theorem maps_drain_and_read_back (host : Host σ) {heap : Heap} (built : Heap.Built map heap) :
    (∀ key value, ¬ heap.Includes key (.map map) →
      heap.Decides (some map) (heap.entries map) key → key.isNaN = false →
        (heap.insert map key value).get? map key = some value) ∧
    (∀ (world : World σ) (call : Invocation) (entry : Entry) (rest : List Entry),
      world.heap = heap → heap.entries map = entry :: rest → call.arg 0 = .map map →
        ∃ after, Library.routine .pop call world = (.ok ⟨.ready entry.key, false⟩, after) ∧
          after.heap.entries map = if entry.key.isNaN then entry :: rest else rest) ∧
    (∀ (first world : World σ) (keys : List Value), first.heap = heap →
      (∀ entry ∈ heap.entries map, entry.key.isNaN = false) → Library.Pops map first keys world →
        keys.length ≤ (heap.entries map).length →
          keys = ((heap.entries map).take keys.length).map (·.key) ∧
            world.heap.entries map = (heap.entries map).drop keys.length) ∧
    ∀ (loop : ForLoop) (creation : Visit σ) (later : List (Visit σ)) (outer : List Frame)
      (machine : Machine) (world : World σ) (below : List Value),
      GoesThrough host loop creation later outer machine world → creation.world.heap = heap →
        creation.machine.stack = .map map :: below →
          (∀ visit ∈ loop.turned later, heap.Spares map visit.world.heap) →
            List.Forall₂
              (fun visit entry => visit.BindsRecord host loop.var entry.key
                (if entry.key.isNaN then .null else entry.value))
              (loop.turned later) ((heap.entries map).take (loop.turned later).length) ∧
            ∃ id, ∀ instr next after,
              { machine with status := .running }.Executes host world instr next after →
                instr.op = .return ∧ outer = next.frame :: next.callers ∨
                  ∃ frame, frame :: outer <:+ next.frame :: next.callers ∧
                    Visit.Turns host loop id ((heap.entries map).map (·.key)).toArray (some map)
                      (loop.turned later).length ⟨{ machine with status := .running }, world⟩
                      frame := by
  have orderly := built.orderly
  refine ⟨fun key value apart decides number => orderly.get?_insert apart decides number value,
    ?_, ?_, ?_⟩
  · rintro world call entry rest rfl first receiver
    obtain ⟨after, answered, _, left⟩ := Library.pop_first orderly first receiver
    exact ⟨after, answered, left⟩
  · rintro first world keys rfl numbers pops enough
    obtain ⟨same, _, left⟩ := pops.keys built numbers enough
    exact ⟨same, left⟩
  · rintro loop creation later outer machine world below goes rfl held spared
    obtain ⟨id, bound, acts⟩ := goes.overMap held
    refine ⟨?_, id, acts⟩
    rw [← List.map_take, List.forall₂_map_right_iff] at bound
    refine forall₂_imp_of_mem ((List.forall₂_and_left _ _).mpr ⟨spared, bound⟩) ?_
    rintro entry member visit ⟨spares, binds⟩
    have found := (orderly.spared spares).get? (spares.entries ▸ List.mem_of_mem_take member)
    have records := binds.record
    rw [found] at records
    cases nan : entry.key.isNaN with
    | true => rwa [nan] at records
    | false => rwa [nan] at records

end Machine

/-- A program with a loop over the map from `k` to `a` and from `l` to `b` that goes on at once. -/
def Code.goesThroughMap (entries : Array SourceEntry) : Code where
  instrs := #[pushValue (.text "k"), pushValue (.text "a"), pushValue (.text "l"),
    pushValue (.text "b"), withCount .buildMap 2,
    { op := .createForLoop, first := .int 0, second := .name "e" },
    { op := .iterateForLoop, first := .int 0, second := .addr 9 }, withCount .continueForLoop 0,
    jumpTo .jump 6]
  entries

/-- The map as a tree. -/
def Expr.pairOfTexts : Expr :=
  .map default 0 [(.text "k" default 0, .text "a" default 0), (.text "l" default 0,
    .text "b" default 0)]

theorem Code.goesThroughMap_written : ∃ entries,
    compileBody none .program [.forLoop 0 default ⟨"e", default, 0⟩ .pairOfTexts
      [.continueLoop 0 default]] #[] = .ok (goesThroughMap entries, #[]) :=
  ⟨_, (compileBody_eq_layBody _ _ _ _).trans (by rfl)⟩

/-- Two keys are popped in the order in which they were stored, and their values are read, by name
and in a loop. -/
theorem Machine.map_of_texts_drained_and_read_back :
    ∃ (heap : Heap) (one two : Entry), heap.entries ⟨1⟩ = [one, two] ∧ one.key = .text "k" ∧
      two.key = .text "l" ∧
      (heap.insert ⟨1⟩ one.key (.text "v")).get? ⟨1⟩ one.key = some (.text "v") ∧
      (∃ (first after : World Unit) (keys : List Value), first.heap = heap ∧
        Library.Pops ⟨1⟩ first keys after ∧ keys = [one.key, two.key] ∧
        after.heap.entries ⟨1⟩ = []) ∧
      ∃ (loop : ForLoop) (later : List (Visit Unit)) (id : Nat) (machine next : Machine)
        (world after : World Unit),
        List.Forall₂
          (fun visit entry => visit.BindsRecord .silent loop.var entry.key entry.value)
          (loop.turned later) [one, two] ∧
        machine.Executes .silent world (loop.turn id) next after ∧ next.position = loop.stop := by
  let loop : ForLoop := ⟨0, "e", .pairOfTexts, [.continueLoop 0 default]⟩
  obtain ⟨entries, written⟩ := Code.goesThroughMap_written
  let running (position : Nat) (loops : List LoopState) (stack : List Value) : Machine :=
    { frame := { code := Code.goesThroughMap entries, position, scope := ⟨0⟩, loops }
      stack, status := .running }
  let state : LoopState :=
    { id := 0, var := "e", items := #[.text "k", .text "l"], source := some ⟨1⟩ }
  let turned (index : Nat) : LoopState := { state with start := 6, exit := 9, index }
  let globals : Heap := { maps := #[{}], scopes := #[⟨⟨0⟩, none⟩] }
  let heap : Heap := (Draft.map (.ofNames [("k", .text "a"), ("l", .text "b")])).addTo globals
  let one : Entry := ⟨.text "k", 0, .text "a"⟩
  let two : Entry := ⟨.text "l", 0, .text "b"⟩
  let world : World Unit := { World.initial {} () with heap := globals }
  let pushed := (((world.pass 1000).pass 1000).pass 1000).pass 1000
  let mapped := (pushed.pass 1000).modifyHeap fun _ => heap
  let bound (world : World Unit) (key value : String) : World Unit :=
    ((world.pass 1000).modifyHeap
      (Draft.map (.ofNames [("key", .text key), ("value", .text value)])).addTo).modifyHeap
      fun heap => heap.insert (world.heap.vars ⟨0⟩) (.text "e") (.map ⟨world.heap.maps.size⟩)
  let first := bound (mapped.pass 1000) "k" "a"
  let second := bound (first.pass 1000) "l" "b"
  have stands {machine : Machine} (going : machine.status = .running)
      (unfinished : machine.frame.isDone = false) : machine.Stands [] :=
    ⟨going ▸ nofun, Nat.zero_le _, fun _ => unfinished⟩
  have continues (index : Nat) (world : World Unit) :
      (running 7 [turned index] []).step .silent (World.poll .silent) world =
        ⟨running 6 [turned index] [], world.pass 1000, none⟩ := rfl
  have leaves (world : World Unit) : (running 6 [turned 2] []).Executes .silent world (loop.turn 0)
      (running 9 [] []) (world.pass 1000) := ⟨rfl, rfl, rfl, rfl⟩
  let begun : Visit Unit := ⟨running 0 [] [], world⟩
  let named : Visit Unit := ⟨running 1 [] [.text "k"], world.pass 1000⟩
  let valued : Visit Unit := ⟨running 2 [] [.text "a", .text "k"], (world.pass 1000).pass 1000⟩
  let renamed : Visit Unit :=
    ⟨running 3 [] [.text "l", .text "a", .text "k"], ((world.pass 1000).pass 1000).pass 1000⟩
  let complete : Visit Unit :=
    ⟨running 4 [] [.text "b", .text "l", .text "a", .text "k"], pushed⟩
  let creation : Visit Unit := ⟨running 5 [] [.map ⟨1⟩], mapped⟩
  let earlier : List (Visit Unit) := [complete, renamed, valued, named, begun]
  have names : Tenure .silent [] begun.machine world [begun] named.machine named.world :=
    Tenure.start.goesOn (World.poll .silent) rfl (stands rfl rfl)
  have values : Tenure .silent [] begun.machine world [named, begun] valued.machine valued.world :=
    names.goesOn (World.poll .silent) rfl (stands rfl rfl)
  have namesMore : Tenure .silent [] begun.machine world [valued, named, begun] renamed.machine
      renamed.world := values.goesOn (World.poll .silent) rfl (stands rfl rfl)
  have completes : Tenure .silent [] begun.machine world [renamed, valued, named, begun]
      complete.machine pushed := namesMore.goesOn (World.poll .silent) rfl (stands rfl rfl)
  have builds : Tenure .silent [] begun.machine world earlier creation.machine mapped :=
    completes.goesOn (World.poll .silent) rfl (stands rfl rfl)
  have setsUp : Tenure .silent [] begun.machine world (creation :: earlier)
      (running 6 [state] []) (mapped.pass 1000) :=
    builds.goesOn (World.poll .silent) rfl (stands rfl rfl)
  let turn : Visit Unit := ⟨running 6 [state] [], mapped.pass 1000⟩
  have turns : Tenure .silent [] begun.machine world (turn :: creation :: earlier)
      (running 7 [turned 1] []) first :=
    setsUp.goesOn (World.poll .silent) rfl (stands rfl rfl)
  let once : List (Visit Unit) := [⟨running 7 [turned 1] [], first⟩, turn]
  have goesOn : Tenure .silent [] begun.machine world (once ++ creation :: earlier)
      (running 6 [turned 1] []) (first.pass 1000) :=
    turns.goesOn (World.poll .silent) (continues 1 first) (stands rfl rfl)
  let turnAgain : Visit Unit := ⟨running 6 [turned 1] [], first.pass 1000⟩
  have turnsAgain : Tenure .silent [] begun.machine world
      (turnAgain :: (once ++ creation :: earlier)) (running 7 [turned 2] []) second :=
    goesOn.goesOn (World.poll .silent) rfl (stands rfl rfl)
  let later : List (Visit Unit) := ⟨running 7 [turned 2] [], second⟩ :: turnAgain :: once
  have goesOnAgain : Tenure .silent [] begun.machine world (later ++ creation :: earlier)
      (running 6 [turned 2] []) (second.pass 1000) :=
    turnsAgain.goesOn (World.poll .silent) (continues 2 second) (stands rfl rfl)
  have member : loop ∈ stmtsForLoops 0
      [.forLoop 0 default ⟨"e", default, 0⟩ loop.subject loop.body] := List.mem_cons_self
  have inside : ∀ visit ∈ later, visit.position ≠ loop.stop :=
    List.forall_mem_cons.mpr ⟨nofun, List.forall_mem_cons.mpr ⟨nofun,
      List.forall_mem_cons.mpr ⟨nofun, List.forall_mem_singleton.mpr nofun⟩⟩⟩
  have active : (running 0 [] []).Active := ⟨Or.inr rfl, rfl⟩
  have goes : GoesThrough .silent loop creation later [] (running 6 [turned 2] [])
      (second.pass 1000) :=
    .intro (by decide) written member rfl active rfl (stands rfl rfl)
      goesOnAgain rfl inside nofun ⟨rfl, rfl⟩
  have built : Heap.Built ⟨1⟩ heap := .ofNames globals [("k", .text "a"), ("l", .text "b")]
  have both : heap.entries ⟨1⟩ = [one, two] := rfl
  have numbers : ∀ entry ∈ heap.entries ⟨1⟩, entry.key.isNaN = false :=
    List.forall_mem_cons.mpr ⟨rfl, List.forall_mem_singleton.mpr rfl⟩
  have apart : ¬ heap.Includes one.key (.map ⟨1⟩) := fun within => by
    cases Heap.eq_of_includes_scalar rfl within
  have turned : loop.turned later = [turn, turnAgain] := rfl
  have spares (after : World Unit) (grows : 2 ≤ after.heap.maps.size)
      (same : after.heap.entries ⟨1⟩ = [one, two]) : heap.Spares ⟨1⟩ after.heap := by
    refine ⟨grows, same, List.forall_mem_cons.mpr ⟨?_, List.forall_mem_singleton.mpr ?_⟩⟩
    · exact .ofScalar rfl
    · exact .ofScalar rfl
  have spared : ∀ visit ∈ loop.turned later, heap.Spares ⟨1⟩ visit.world.heap := by
    rw [turned]
    refine List.forall_mem_cons.mpr ⟨?_, List.forall_mem_singleton.mpr ?_⟩
    · exact spares (mapped.pass 1000) (Nat.le_refl 2) rfl
    · exact spares (first.pass 1000) (Nat.le_succ 2) rfl
  let full : World Unit := { world with heap }
  let call : Invocation := { definition := default, args := [.map ⟨1⟩], scope := ⟨0⟩ }
  obtain ⟨reads, pop, pops, loops⟩ :=
    maps_drain_and_read_back (Host.silent : Host Unit) built
  let fewer : World Unit := full.modifyHeap fun heap => heap.remove ⟨1⟩ one.key
  have popped : Library.routine .pop call full = (.ok ⟨.ready one.key, false⟩, fewer) := rfl
  obtain ⟨_, popAgain, _⟩ :=
    maps_drain_and_read_back (Host.silent : Host Unit) (built.remove one.key)
  obtain ⟨after, poppedAgain, _⟩ := popAgain fewer call two [] rfl rfl rfl
  have drained : Library.Pops ⟨1⟩ full [one.key, two.key] after :=
    (Library.Pops.start.pop rfl popped).pop rfl poppedAgain
  obtain ⟨_, left⟩ := pops full after _ rfl numbers drained (Nat.le_refl 2)
  obtain ⟨records, id, acts⟩ := loops loop creation later [] _ _ [] goes rfl rfl spared
  have read : List.Forall₂
      (fun visit entry => visit.BindsRecord .silent loop.var entry.key entry.value)
      (loop.turned later) [one, two] := by
    rw [turned] at records ⊢
    obtain ⟨record, others⟩ := List.forall₂_cons.mp records
    exact .cons record (.cons (List.forall₂_cons.mp others).1 .nil)
  refine ⟨heap, one, two, both, rfl, rfl, reads _ _ apart (Heap.decides_scalar rfl _ _) rfl,
    ⟨full, after, _, rfl, drained, rfl, left⟩, loop, later, 0, _, _, _, _, read,
    leaves (second.pass 1000), ?_⟩
  rcases acts _ _ _ (leaves (second.pass 1000)) with ⟨isReturn, -⟩ | ⟨frame, above, turns⟩
  · cases isReturn
  · obtain ⟨rfl, -⟩ := List.cons.inj (above.eq_of_length rfl)
    cases turns with
    | begins here next => cases next
    | finishes here all place gone => exact place
    | inside away => exact absurd rfl away
    | breaks away => exact absurd rfl away

/-- A map with NaN as its only key. -/
def Heap.withNaN : Heap :=
  ((Draft.map {}).addTo {}).insert ⟨0⟩ (.number (0.0 / 0.0)) (.number 1.0)

/-- A script has built the map, but its key cannot be popped out of it, nor its value read back. -/
theorem Machine.nan_stays_in_map :
    let world : World Unit := { World.initial {} () with heap := Heap.withNaN }
    let call : Invocation := { definition := default, args := [.map ⟨0⟩], scope := ⟨0⟩ }
    ∃ entry after, Heap.Built ⟨0⟩ Heap.withNaN ∧ Heap.withNaN.entries ⟨0⟩ = [entry] ∧
      entry.value = .number 1.0 ∧
      Library.routine .pop call world = (.ok ⟨.ready entry.key, false⟩, after) ∧
      after.heap.entries ⟨0⟩ = [entry] ∧ Heap.withNaN.get? ⟨0⟩ entry.key = none := by
  intro world call
  let entry : Entry := ⟨.number (0.0 / 0.0), 0, .number 1.0⟩
  have nan : entry.key.isNaN = true := by decide +kernel
  have scalar : entry.key.isContainer = false := rfl
  have built : Heap.Built ⟨0⟩ Heap.withNaN := by
    refine (Heap.Built.ofNames {} []).store (fun within => ?_) (Heap.decides_scalar scalar _ _) _
    cases Heap.eq_of_includes_scalar scalar within
  have entries : Heap.withNaN.entries ⟨0⟩ = [entry] := rfl
  have member : entry ∈ Heap.withNaN.entries ⟨0⟩ := List.mem_singleton_self _
  have orderly : world.heap.Orderly ⟨0⟩ := built.orderly
  have receiver : call.arg 0 = .map ⟨0⟩ := rfl
  obtain ⟨after, answered, _, left⟩ := Library.pop_first orderly entries receiver
  have found := built.orderly.get? member
  rw [nan] at left found
  exact ⟨entry, after, built, entries, rfl, answered, left, found⟩

end MiniScript
