import MiniScript.Proofs.Machine.Methods
import MiniScript.Proofs.Machine.Natives

/-!
# Interceptors of writes

A map has a table of interceptors, and only the host puts one there. An assignment
or a turn of a loop is announced to the interceptor that the map has for the key,
and to no other, before anything is stored; if the interceptor refuses, nothing
is. Natives do not announce: `push`, `pop` and `remove` change the map they are
given, and the import of a module that is there already changes the variables of
the caller. A sum of two maps takes the interceptors of the first with it.
-/

namespace MiniScript

variable {σ : Type}

namespace Heap

/-- At most the entries of the maps in `touched` have changed, and maps have been added. -/
structure Alters (touched : MapRef → Prop) (before after : Heap) : Prop where
  size : before.maps.size ≤ after.maps.size
  interceptors : ∀ map : MapRef, map.index < before.maps.size →
    (after.mapAt map).interceptors = (before.mapAt map).interceptors
  entries : ∀ map : MapRef, map.index < before.maps.size → ¬ touched map →
    after.entries map = before.entries map

namespace Alters

variable {touched more : MapRef → Prop} {heap before middle after : Heap}

theorem ofMaps (same : after.maps = before.maps) : Alters touched before after := by
  refine ⟨Nat.le_of_eq (by rw [same]), fun map _ => ?_, fun map _ _ => ?_⟩
  · rw [mapAt, mapAt, same]
  · rw [Heap.entries, Heap.entries, mapAt, mapAt, same]

theorem refl (heap : Heap) : Alters touched heap heap :=
  ofMaps rfl

theorem trans (first : Alters touched before middle) (second : Alters touched middle after) :
    Alters touched before after := by
  refine ⟨Nat.le_trans first.size second.size, fun map known => ?_, fun map known spared => ?_⟩
  · exact (second.interceptors map (Nat.lt_of_lt_of_le known first.size)).trans
      (first.interceptors map known)
  · exact (second.entries map (Nat.lt_of_lt_of_le known first.size) spared).trans
      (first.entries map known spared)

theorem mono (alters : Alters touched before after) (wider : ∀ map, touched map → more map) :
    Alters more before after :=
  ⟨alters.size, alters.interceptors,
    fun map known spared => alters.entries map known (spared ∘ wider map)⟩

theorem ofPush {object : MapObject} (pushed : after.maps = before.maps.push object) :
    Alters touched before after := by
  have same (map : MapRef) (known : map.index < before.maps.size) :
      after.mapAt map = before.mapAt map := by
    rw [mapAt, mapAt, pushed, Array.getElem?_push_lt known, Array.getElem?_eq_getElem known]
  refine ⟨?_, fun map known => ?_, fun map known _ => ?_⟩
  · rw [pushed, Array.size_push]
    exact Nat.le_succ _
  · rw [same map known]
  · rw [Heap.entries, Heap.entries, same map known]

theorem ofEntries {map : MapRef} (entries : List Entry) (allowed : touched map) :
    Alters touched heap (heap.modifyMap map fun object => { object with entries }) := by
  refine ⟨?_, fun other _ => ?_, fun other _ spared => ?_⟩
  · exact Nat.le_of_eq Array.size_modify.symm
  · rw [mapAt, modifyMap, Array.getElem?_modify, mapAt]
    split
    · cases heap.maps[other.index]? with
      | none => rfl
      | some object => rfl
    · rfl
  · have apart : other ≠ map := fun same => spared (same ▸ allowed)
    rw [Heap.entries, heap.mapAt_modifyMap_of_ne map other _ apart, Heap.entries]

theorem insert {map : MapRef} (allowed : touched map) (key value : Value) :
    Alters touched heap (heap.insert map key value) :=
  ofEntries _ allowed

theorem remove {map : MapRef} (allowed : touched map) (key : Value) :
    Alters touched heap (heap.remove map key) :=
  ofEntries _ allowed

theorem addTo (draft : Draft) (heap : Heap) : Alters touched heap (draft.addTo heap) := by
  cases draft with
  | plain value => exact refl heap
  | list items => exact ofMaps rfl
  | map object => exact ofPush rfl

end Alters

end Heap

namespace World

/-- At most the maps in `touched` have changed, apart from maps that have been added. -/
def Alters (touched : MapRef → Prop) (before after : World σ) : Prop :=
  before.heap.Alters touched after.heap

end World

namespace Library

variable {world : World σ} {call : Invocation} {map : MapRef}

/-- The changes that are not announced: methods change the map they are called with, and the import
of a module that is there already changes the variables of the caller. -/
inductive Changes (world : World σ) (call : Invocation) : MapRef → Prop where
  | method {builtin : Builtin} {map : MapRef} (body : call.definition.body = .builtin builtin)
      (changes : builtin = .push ∨ builtin = .pop ∨ builtin = .remove)
      (receiver : call.arg 0 = .map map) : Changes world call map
  | binding {name : String} {cached : Value} (body : call.definition.body = .importer)
      (named : call.arg 0 = .text name) (known : world.cachedModule? name = some cached) :
      Changes world call (world.heap.vars call.scope)

/-- The heap change of an effect alters only what a method may. -/
def ChangesOnly (touched : MapRef → Prop) (outcome : Except Fault Effect) : Prop :=
  ∀ effect, outcome = .ok effect → ∀ heap : Heap, heap.Alters touched (effect.change heap)

section

variable {touched : MapRef → Prop}

theorem changesOnly_answer (draft : Draft) : ChangesOnly touched (answer draft) := by
  rintro effect ⟨⟩ heap
  exact .refl heap

theorem changesOnly_error (fault : Fault) : ChangesOnly touched (.error fault) :=
  fun _ impossible => nomatch impossible

theorem changesOnly_bind {α : Type} {first : Except Fault α} {next : α → Except Fault Effect}
    (rest : ∀ value, ChangesOnly touched (next value)) : ChangesOnly touched (first >>= next) := by
  cases first with
  | error fault => exact changesOnly_error fault
  | ok value => exact rest value

theorem changesOnly_range (limits : Limits) : ChangesOnly touched (range limits call) := by
  refine changesOnly_bind fun first => changesOnly_bind fun last =>
    changesOnly_bind fun step => ?_
  split
  · exact changesOnly_error _
  · dsimp only
    split
    all_goals
      split
      · exact changesOnly_error _
      · exact changesOnly_answer _

theorem changesOnly_push (allowed : ∀ map, call.arg 0 = .map map → touched map) :
    ChangesOnly touched (push call) := by
  unfold push
  dsimp only
  split
  · rintro effect ⟨⟩ heap
    exact .ofMaps rfl
  · rename_i map receiver
    rintro effect ⟨⟩ heap
    exact .insert (allowed map receiver) _ _
  · exact changesOnly_error _

theorem changesOnly_pop (heap : Heap) (allowed : ∀ map, call.arg 0 = .map map → touched map) :
    ChangesOnly touched (pop heap call) := by
  unfold pop
  split
  · rintro effect ⟨⟩ heap
    exact .ofMaps rfl
  · rename_i map receiver
    split
    · exact changesOnly_answer _
    · rintro effect ⟨⟩ heap
      exact .remove (allowed map receiver) _
  · exact changesOnly_error _

theorem changesOnly_remove (heap : Heap) (allowed : ∀ map, call.arg 0 = .map map → touched map) :
    ChangesOnly touched (remove heap call) := by
  unfold remove
  dsimp only
  split
  · rename_i map receiver
    rintro effect ⟨⟩ heap
    exact .remove (allowed map receiver) _
  · split
    · rintro effect ⟨⟩ heap
      exact .ofMaps rfl
    · exact changesOnly_error _
  · exact changesOnly_answer _
  · exact changesOnly_error _

end

/-- The other functions only read the heap. -/
theorem changesOnly_effect {builtin : Builtin} (body : call.definition.body = .builtin builtin) :
    ChangesOnly (Changes world call) (effect world builtin call) := by
  cases builtin with
  | range => exact changesOnly_range world.limits
  | push => exact changesOnly_push fun map receiver => .method body (.inl rfl) receiver
  | pop => exact changesOnly_pop world.heap fun map receiver =>
      .method body (.inr (.inl rfl)) receiver
  | remove =>
      exact changesOnly_remove world.heap fun map receiver =>
        .method body (.inr (.inr rfl)) receiver
  | indexOf =>
      simp only [effect, indexOf]
      split
      all_goals first | exact changesOnly_error _ | split <;> exact changesOnly_answer _
  | hasIndex | indexes | values | join | split =>
      simp only [effect, hasIndex, indexes, values, join, split]
      split
      all_goals first | exact changesOnly_error _ | exact changesOnly_answer _
  | abs | floor => exact changesOnly_bind fun _ => changesOnly_answer _
  | wait =>
      refine changesOnly_bind fun seconds => ?_
      rintro effect ⟨⟩ heap
      exact .refl heap
  | print | yield =>
      rintro effect ⟨⟩ heap
      exact .refl heap
  | _ => exact changesOnly_answer _

theorem apply_alters {touched : MapRef → Prop} {effect : Effect}
    (changes : ∀ heap : Heap, heap.Alters touched (effect.change heap)) :
    World.Alters touched world (apply effect world).2 := by
  have answered (middle : World σ) (same : middle.heap = effect.change world.heap) :
      World.Alters touched world (middle.modifyHeap effect.answer.addTo) := by
    rw [World.Alters, World.modifyHeap, same]
    exact (changes world.heap).trans (.addTo _ _)
  unfold apply
  cases effect.line with
  | none =>
      cases effect.deadline with
      | none => exact answered _ rfl
      | some deadline => exact changes world.heap
  | some line =>
      cases effect.deadline with
      | none => exact answered _ rfl
      | some deadline => exact changes world.heap

end Library

namespace Action

/-- The maps that an action changes: the one it stores into, and those that a native changes. -/
inductive Touches (world : World σ) : Action → MapRef → Prop where
  | store (next : Machine) (map : MapRef) (key : Value) (draft : Draft) :
      Touches world (.store next map key draft) map
  | native {action : Action} {next : Machine} {call : Invocation} {map : MapRef}
      (calls : action.native? world.heap = some (next, call))
      (changes : Library.Changes world call map) : Touches world action map

end Action

namespace Machine

variable {host : Host σ} {world : World σ} {hosted : MapRef → Prop}

theorem receive_alters (machine : Machine) (reply : Reply) {touched : MapRef → Prop}
    {before after : World σ} (alters : World.Alters touched before after) :
    World.Alters touched before (machine.receive reply after).2 := by
  unfold receive
  dsimp only
  split
  · exact alters
  · exact alters

theorem receiveOutcome_alters (machine : Machine) {touched : MapRef → Prop} {before : World σ}
    {outcome : Except RuntimeError Reply × World σ}
    (alters : World.Alters touched before outcome.2) :
    World.Alters touched before (machine.receiveOutcome outcome).2 := by
  obtain ⟨error | reply, after⟩ := outcome
  · exact alters
  · exact receive_alters machine reply alters

section

variable (keeps : host.Keeps (World.Alters hosted))

include keeps

theorem store_alters (map : MapRef) (key value : Value) (world : World σ) :
    World.Alters (fun other => hosted other ∨ other = map) world
      (world.store host map key value).2 := by
  unfold World.store
  split
  · exact .insert (.inr rfl) key value
  · rename_i id _
    have asked : World.Alters (fun other => hosted other ∨ other = map) world
        (host.intercept id key value world).2 :=
      (keeps.intercept id key value world).mono fun other => Or.inl
    split
    all_goals rename_i answered; rw [answered] at asked
    · exact asked.trans (.insert (.inr rfl) key value)
    · exact asked

theorem importModule_alters {call : Invocation} (body : call.definition.body = .importer) :
    World.Alters (fun map => hosted map ∨ Library.Changes world call map) world
      (Library.importModule host call world).2 := by
  unfold Library.importModule
  split
  · rename_i name named
    split
    · rename_i cached known
      exact .insert (.inr (.binding body named known)) _ _
    · split
      · exact .refl _
      · split
        · exact .refl _
        · rename_i load loads
          have asked : World.Alters (fun map => hosted map ∨ Library.Changes world call map) world
              (load name world).2 :=
            (keeps.load load loads name world).mono fun other => Or.inl
          unfold Library.loadModule
          split
          all_goals rename_i answered; rw [answered] at asked
          · exact asked
          · exact asked
          · split
            · exact asked
            · exact asked.trans (.ofMaps rfl)
  · exact .refl _

theorem invoke_alters {action : Action} {next : Machine} {closure : Closure}
    {args bound : List Value} {receiver : Option Value} {owner : Option MapRef}
    (calls : action = .call next (.function closure) args receiver owner)
    (binds : bindArguments (world.heap.definition closure.definition) args receiver = .ok bound) :
    World.Alters (fun map => hosted map ∨ action.Touches world map) world
      (next.invoke host (world.heap.definition closure.definition) closure.outer bound receiver
        owner world).2 := by
  -- A native that the action calls may change what natives change.
  have native (foreign : ∀ code, (world.heap.definition closure.definition).body ≠ .script code) :
      action.native? world.heap = some (next,
        { definition := world.heap.definition closure.definition, args := bound,
          scope := next.frame.scope }) := by
    rw [calls, native?_of_binds foreign binds]
  unfold invoke
  dsimp only
  split
  · unfold enter
    split
    · exact .refl _
    · exact .ofPush rfl
  · rename_i builtin body
    split
    · rename_i effect decided
      refine receive_alters next _ (Library.apply_alters fun heap => ?_)
      refine (Library.changesOnly_effect body effect decided heap).mono fun map changes => .inr ?_
      exact .native (native fun code script => by simp [body] at script) changes
    · exact .refl _
  · rename_i body
    refine receiveOutcome_alters next ((importModule_alters keeps body).mono fun map => ?_)
    rintro (changed | changes)
    · exact .inl changed
    · exact .inr (.native (native fun code script => by simp [body] at script) changes)
  · exact receiveOutcome_alters next ((keeps.call _ _ world).mono fun map => .inl)

/-- Maps change where an action stores, where a native changes them, and where the host does. -/
theorem perform_alters (action : Action) :
    World.Alters (fun map => hosted map ∨ action.Touches world map) world
      (perform host action world).2 := by
  cases action with
  | proceed next => exact .refl _
  | produce next draft => exact .addTo draft world.heap
  | store next map key draft =>
      have touched (other : MapRef) (changed : hosted other ∨ other = map) :
          hosted other ∨ (Action.store next map key draft).Touches world other := by
        refine changed.imp_right fun same => ?_
        rw [same]
        exact .store next map key draft
      have stored := (store_alters keeps map key (draft.valueIn world.heap)
        (world.modifyHeap draft.addTo)).mono touched
      unfold perform
      dsimp only
      split
      all_goals
        rename_i same
        rw [same] at stored
        exact (Heap.Alters.addTo draft world.heap).trans stored
  | replaceItem next list index value => exact .ofMaps rfl
  | call next callee args receiver owner =>
      unfold perform call
      dsimp only
      split
      · split
        · rename_i binds
          exact invoke_alters keeps rfl binds
        · exact .refl _
      · split
        · exact .refl _
        · exact .refl _

theorem execute_alters (machine : Machine) (position : Nat) (instr : Instr) (world : World σ) :
    World.Alters (fun _ => True) world (machine.execute host position instr world).2 := by
  rw [execute_eq]
  split
  · exact (perform_alters keeps _).mono fun _ _ => trivial
  · exact .refl _

end

end Machine

/-- A relation between heaps that instructions and the polls of the host keep to. -/
structure Host.Governs (host : Host σ) (relation : Heap → Heap → Prop) : Prop where
  refl : ∀ heap, relation heap heap
  trans : ∀ {first second third}, relation first second → relation second third →
    relation first third
  execute : ∀ (machine : Machine) (position : Nat) (instr : Instr) (world : World σ),
    relation world.heap (machine.execute host position instr world).2.heap
  poll : ∀ (id : Nat) (world : World σ), relation world.heap (host.poll id world).2.heap

namespace Host.Governs

variable {host : Host σ} {relation : Heap → Heap → Prop} {outside : World σ → World σ → Prop}
  (governs : host.Governs relation)

include governs

open World

theorem advance (machine : Machine) (world : World σ) :
    relation world.heap (machine.advance host world).world.heap := by
  rw [Machine.advance_eq]
  split
  · rw [Machine.heap_abort]
    exact governs.refl _
  · rename_i instr _
    have executed := governs.execute machine.begun machine.frame.position instr (world.pass 1000)
    split
    all_goals rename_i same; rw [same] at executed
    · split
      · rw [Machine.heap_settle]
        exact executed
      · exact executed
    · rw [Machine.heap_abort]
      exact executed

theorem awaken (machine : Machine) (ref : DeferredRef) (world : World σ) :
    relation world.heap (machine.awaken ref world).world.heap := by
  unfold Machine.awaken
  dsimp only
  split
  · exact governs.refl _
  · rw [Machine.heap_abort]
    exact governs.refl _
  · rw [Machine.heap_abort]
    exact governs.refl _

section

variable {poll : Poller σ} (polls : ∀ ref world, relation world.heap (poll ref world).heap)

include polls

theorem resume (machine : Machine) (world : World σ) :
    relation world.heap (machine.resume poll world).world.heap := by
  unfold Machine.resume
  split
  · exact governs.refl _
  · rename_i wait _
    have attended : relation world.heap (Machine.attend poll wait world).heap := by
      unfold Machine.attend
      split
      · exact governs.refl _
      · exact polls wait.deferred world
    dsimp only
    split
    · exact governs.trans attended (governs.awaken machine wait.deferred _)
    · exact attended

theorem step (machine : Machine) (world : World σ) :
    relation world.heap (machine.step host poll world).world.heap := by
  have resumed := governs.resume polls machine world
  have stepped := Machine.step_stepped host poll machine world
  generalize machine.step host poll world = turn at stepped ⊢
  cases stepped with
  | ended => exact governs.refl _
  | stayed => exact resumed
  | woke =>
      rw [Machine.heap_settle]
      exact resumed
  | settled =>
      rw [Machine.heap_settle]
      exact governs.refl _
  | advanced => exact governs.advance _ world

theorem runCycles (budget : Nat) (machine : Machine) (world : World σ) :
    relation world.heap (machine.runCycles host poll budget world).world.heap :=
  Machine.runCycles_keeps (motive := fun _ later => relation world.heap later.heap)
    (fun before => governs.trans before (governs.step polls _ _)) id budget (governs.refl _)

end

/-- Polling runs the bodies of modules, whose waits are polled one level deeper. -/
theorem pollWithin (level : Nat) (ref : DeferredRef) (world : World σ) :
    relation world.heap (World.pollWithin host level ref world).heap := by
  induction level generalizing ref world with
  | zero => exact governs.refl _
  | succ level ih =>
      unfold World.pollWithin
      split
      · exact governs.refl _
      · dsimp only
        split
        · exact governs.refl _
        · exact governs.poll _ (world.modifyDeferred ref .lend)
        · rename_i load _
          have ran := governs.runCycles ih
            (world.modifyDeferred ref .lend).limits.burstCycles load.machine
            (world.modifyDeferred ref .lend)
          split
          · unfold Library.finishModule
            dsimp only
            split
            all_goals exact ran
          · exact ran

theorem serve (machine : Machine) (world : World σ) (request : Request) :
    relation world.heap (machine.serve host world request).world.heap := by
  have polls (ref : DeferredRef) (world : World σ) :
      relation world.heap (World.poll host ref world).heap := governs.pollWithin _ ref world
  have cancelled (machine : Machine) (world : World σ) :
      relation world.heap (world.cancelWait machine).heap := by
    rw [heap_cancelWait]
    exact governs.refl _
  cases request with
  | step => exact governs.step polls machine world
  | cycles budget => exact governs.runCycles polls budget machine world
  | burst => exact governs.runCycles polls world.limits.burstCycles machine world
  | resume => exact governs.resume polls machine world
  | pause =>
      unfold Machine.serve Machine.pause
      dsimp only
      split
      · exact governs.refl _
      · split
        · exact governs.refl _
        · split
          · exact governs.refl _
          · exact cancelled machine world
  | stop =>
      unfold Machine.serve Machine.stop
      dsimp only
      split
      · exact governs.refl _
      · exact cancelled machine world

theorem run {first machine : Machine} {initial world : World σ}
    (changes : ∀ before after, outside before after → relation before.heap after.heap)
    (run : Machine.Run host outside first initial machine world) :
    relation initial.heap world.heap := by
  induction run with
  | start => exact governs.refl _
  | serve before request ih => exact governs.trans ih (governs.serve _ _ request)
  | change before changed ih => exact governs.trans ih (changes _ _ changed)

end Host.Governs

namespace Action

/-- What an action makes. -/
def draft? : Action → Option Draft
  | .produce _ draft => some draft
  | .store _ _ _ draft => some draft
  | _ => none

end Action

/-- Maps are made by the addition of two maps only; the sum has the interceptors of the first. -/
theorem Operator.combine_map {heap : Heap} {limits : Limits} {op : BinaryOp} {left right : Value}
    {object : MapObject} (made : combine heap limits op left right = .ok (.map object)) :
    op = .add ∧ ∃ first second, left = .map first ∧ right = .map second ∧
      object.interceptors = (heap.mapAt first).interceptors := by
  -- Scaled and joined sequences are lists and texts.
  have scaled {α : Type} {result : Except Fault α} {draft : α → Draft}
      (apart : ∀ value, draft value ≠ .map object) :
      (result >>= fun value => Except.ok (draft value)) ≠ .ok (.map object) := by
    cases result with
    | error fault => exact nofun
    | ok value => exact fun same => apart value (Except.ok.inj same)
  unfold combine at made
  dsimp only at made
  split at made
  · split at made <;> cases made
  · split at made
    · cases made
    · split at made <;> cases made
  · split at made <;> cases made
  · split at made
    · cases made
    · split at made
      · split at made
        · exact absurd made (scaled fun _ => nofun)
        · cases made
      · cases made
  · split at made <;> cases made
  · split at made
    · exact absurd made (scaled fun _ => nofun)
    · cases made
  · split at made
    · exact absurd made (scaled fun _ => nofun)
    · cases made
  · rename_i first second
    split at made
    · rename_i added
      cases made
      exact ⟨added, first, second, rfl, rfl, rfl⟩
    · cases made
  · cases made

theorem World.binary_map {world : World σ} {op : BinaryOp} {left right : Value}
    {object : MapObject} (made : world.binary op left right = .ok (.map object)) :
    op = .add ∧ ∃ first second, left = .map first ∧ right = .map second ∧
      object.interceptors = (world.heap.mapAt first).interceptors := by
  unfold binary at made
  split at made
  · cases made
  · cases made
  · cases result : world.isa left right with
    | error fault => simp [result, Except.map] at made
    | ok answer => simp [result, Except.map, Draft.truth] at made
  · exact Operator.combine_map made

namespace Machine

variable {host : Host σ} {world : World σ}

/-- The map that an instruction makes: it listens to nobody, or it is the sum of two maps. -/
def Makes (world : World σ) (machine : Machine) (instr : Instr) (object : MapObject) : Prop :=
  object.interceptors = [] ∨
    (instr.op = .binary ∨ instr.op = .compareKeep) ∧ instr.first = .op .add ∧
      ∃ left right rest, machine.stack = .map right :: .map left :: rest ∧
        object.interceptors = (world.heap.mapAt left).interceptors

theorem slice_ne_map (heap : Heap) (subject first last : Value) (object : MapObject) :
    Operator.slice heap subject first last ≠ .ok (.map object) := by
  unfold Operator.slice
  split
  · cases Sequence.bounds first last (heap.items _).size with
    | error fault => exact nofun
    | ok bounds => exact nofun
  · dsimp only
    cases Sequence.bounds first last _ with
    | error fault => exact nofun
    | ok bounds => exact nofun
  · exact nofun

theorem binary_makes {machine : Machine} {instr : Instr} {op : BinaryOp} {right left : Value}
    {rest : List Value} {object : MapObject}
    (opcode : instr.op = .binary ∨ instr.op = .compareKeep) (operator : instr.first = .op op)
    (operands : machine.stack = right :: left :: rest)
    (made : world.binary op left right = .ok (.map object)) : Makes world machine instr object := by
  obtain ⟨rfl, first, second, rfl, rfl, same⟩ := World.binary_map made
  exact .inr ⟨opcode, operator, first, second, rest, operands, same⟩

theorem planStore_draft (heap : Heap) (machine : Machine) (subject key value : Value) :
    Ensures (fun action => ∀ object, action.draft? ≠ some (.map object))
      (orFault (planStore heap machine subject key value)) := by
  cases subject with
  | map map => exact .ok nofun
  | list list =>
      cases key with
      | number index =>
          unfold planStore
          dsimp only
          cases Sequence.position index (heap.items list).size with
          | error fault => exact .error _
          | ok place => exact .ok nofun
      | _ => exact .error _
  | _ => exact .error _

theorem pop_operand (machine : Machine) :
    Ensures (fun popped => machine.stack = popped.1 :: popped.2.stack) machine.pop := by
  unfold pop pop?
  cases machine.stack with
  | nil => exact .error _
  | cons value stack => exact .ok rfl

theorem opOperand_op (heap : Heap) (op : Opcode) (operand : Operand) :
    Ensures (fun binary => operand = .op binary) (opOperand heap op operand) := by
  cases operand with
  | op binary => exact .ok rfl
  | _ => exact .error _

/-- No instruction puts interceptors into a map, but a sum takes those of its first operand. -/
theorem plan_makes (world : World σ) (machine : Machine) (position : Nat) (instr : Instr) :
    Ensures (fun action => ∀ object, action.draft? = some (.map object) →
      Makes world machine instr object) (plan world machine position instr) := by
  obtain ⟨op, first, second⟩ := instr
  cases op with
  | pushValue | pushFunction | pushScope | dup2 =>
      unfold plan
      dsimp only
      split
      · exact .ok nofun
      · exact .error _
  | not | pop | jump | «return» => exact .skip fun _ => .ok nofun
  | loadVar | assignVar | breakForLoop | continueForLoop | buildList | loadSuperIndex
  | negate => exact .skip fun _ => .skip fun _ => .ok nofun
  | loadIndex | callValue => exact .skip fun _ => .skip fun _ => .skip fun _ => .ok nofun
  | createForLoop | callVar | callSuper =>
      exact .skip fun _ => .skip fun _ => .skip fun _ => .skip fun _ => .ok nofun
  | callIndex =>
      exact .skip fun _ => .skip fun _ => .skip fun _ => .skip fun _ => .skip fun _ => .ok nofun
  | jumpIfFalse =>
      refine .skip fun _ => ?_
      dsimp only
      split
      · exact .ok nofun
      · exact .skip fun _ => .ok nofun
  | jumpIfTrue =>
      refine .skip fun _ => ?_
      dsimp only
      split
      · exact .skip fun _ => .ok nofun
      · exact .ok nofun
  | assignIndex =>
      refine .skip fun _ => .skip fun _ => .skip fun popped action planned object made => ?_
      exact absurd made (planStore_draft _ popped.2 _ _ _ action planned object)
  | iterateForLoop =>
      refine .skip fun _ => .skip fun _ => .skip fun loop => .ok fun object made => ?_
      unfold planTurn at made
      split at made
      · exact nomatch made
      · unfold loopValue at made
        dsimp only [Action.draft?] at made
        split at made
        · exact nomatch made
        · cases made
          exact .inl rfl
  | buildMap =>
      refine .skip fun _ => .skip fun _ => .ok fun object made => ?_
      cases made
      exact .inl rfl
  | new =>
      refine .skip fun popped => .bind (fun draft made => orFault_eq_ok made)
        fun draft made => .ok ?_
      rintro object ⟨⟩
      unfold Operator.instantiate at made
      split at made
      · cases made
        exact .inl rfl
      · cases made
  | slice =>
      refine .skip fun _ => .skip fun _ => .skip fun _ =>
        .bind (fun draft cut => orFault_eq_ok cut) fun draft cut => .ok ?_
      rintro object ⟨⟩
      exact absurd cut (slice_ne_map _ _ _ _ object)
  | binary =>
      refine (opOperand_op _ _ first).bind fun op operator => ?_
      refine (pop_operand machine).bind fun right top =>
        (pop_operand right.2).bind fun left below => ?_
      refine .bind (fun draft made => orFault_eq_ok made) fun draft made => .ok ?_
      rintro object ⟨⟩
      exact binary_makes (.inl rfl) operator (top.trans (congrArg _ below)) made
  | compareKeep =>
      refine (opOperand_op _ _ first).bind fun op operator => ?_
      refine (pop_operand machine).bind fun right top =>
        (pop_operand right.2).bind fun left below => ?_
      refine .bind (fun draft made => orFault_eq_ok made) fun draft made => .ok ?_
      rintro object ⟨⟩
      exact binary_makes (.inr rfl) operator (top.trans (congrArg _ below)) made

/-- What becomes of a store: the interceptor that the map has for the key, if any, is asked while
nothing has been stored, and decides. -/
structure Announced (host : Host σ) (hosted : MapRef → Prop) (world : World σ) (next : Machine)
    (map : MapRef) (key : Value) (draft : Draft) : Prop where
  unwatched : (draft.addTo world.heap).interceptor? map key = none →
    perform host (.store next map key draft) world = (.ok next,
      (world.modifyHeap draft.addTo).modifyHeap fun heap =>
        heap.insert map key (draft.valueIn world.heap))
  accepted : ∀ id after, (draft.addTo world.heap).interceptor? map key = some id →
    host.intercept id key (draft.valueIn world.heap) (world.modifyHeap draft.addTo) =
      (.ok (), after) →
    perform host (.store next map key draft) world =
      (.ok next, after.modifyHeap fun heap => heap.insert map key (draft.valueIn world.heap))
  refused : ∀ id error after, (draft.addTo world.heap).interceptor? map key = some id →
    host.intercept id key (draft.valueIn world.heap) (world.modifyHeap draft.addTo) =
      (.error error, after) →
    perform host (.store next map key draft) world = (.error (.runtime error), after) ∧
      (map.index < world.heap.maps.size → ¬ hosted map →
        after.heap.entries map = world.heap.entries map)

/-- The interceptors that an action may ask: the one of the key in the map that it stores into. -/
def Asks (action : Action) (heap : Heap) (id : Nat) : Prop :=
  ∃ next map key draft, action = .store next map key draft ∧
    (draft.addTo heap).interceptor? map key = some id

theorem perform_announces {hosted : MapRef → Prop} (keeps : host.Keeps (World.Alters hosted))
    (next : Machine) (map : MapRef) (key : Value) (draft : Draft) :
    Announced host hosted world next map key draft where
  unwatched unwatched := by
    have free : (world.modifyHeap draft.addTo).heap.interceptor? map key = none := unwatched
    rw [perform, World.store_of_no_interceptor host free]
  accepted id after watched accepted := by
    have found : (world.modifyHeap draft.addTo).heap.interceptor? map key = some id := watched
    simp only [perform, World.store, found, accepted]
  refused id error after watched refused := by
    have found : (world.modifyHeap draft.addTo).heap.interceptor? map key = some id := watched
    refine ⟨by simp only [perform, World.store, found, refused], fun known spared => ?_⟩
    have placed : World.Alters hosted world (world.modifyHeap draft.addTo) :=
      .addTo draft world.heap
    have asked := keeps.intercept id key (draft.valueIn world.heap) (world.modifyHeap draft.addTo)
    rw [refused] at asked
    exact (placed.trans asked).entries map known spared

/-- Whether an interceptor that the action does not ask would answer otherwise makes no
difference. -/
theorem perform_of_asks {action : Action}
    {intercept : Nat → Value → Value → World σ → Except RuntimeError Unit × World σ}
    (same : ∀ id, Asks action world.heap id → intercept id = host.intercept id) :
    perform { host with intercept } action world = perform host action world := by
  cases action with
  | proceed next => rfl
  | produce next draft => rfl
  | replaceItem next list index value => rfl
  | call next callee args receiver owner => rfl
  | store next map key draft =>
      have stores : (world.modifyHeap draft.addTo).store { host with intercept } map key
            (draft.valueIn world.heap) =
          (world.modifyHeap draft.addTo).store host map key (draft.valueIn world.heap) := by
        unfold World.store
        split
        · rfl
        · rename_i id found
          dsimp only
          rw [same id ⟨next, map, key, draft, rfl, found⟩]
      rw [perform, perform, stores]

variable {hosted : MapRef → Prop} {outside : World σ → World σ → Prop}

/-- Throughout a run maps have the interceptors that the host gave them. Assignments and turns of
loops ask the interceptor that the map has for the key, before they store, and no other is ever
asked. The maps that an instruction changes are the one it stores into and those that a native
changes, which announces nothing; a sum of two maps has the interceptors of the first. -/
theorem stores_ask_the_interceptor_of_their_map (keeps : host.Keeps (World.Alters hosted))
    (changes : ∀ before after, outside before after → World.Alters (fun _ => True) before after)
    {first machine current : Machine} {initial : World σ} {position : Nat} {instr : Instr}
    {action : Action} (run : Run host outside first initial machine world)
    (planned : plan world current position instr = .ok action) :
    World.Alters (fun _ => True) initial world ∧
      (∀ next map key draft, action = .store next map key draft →
        Announced host hosted world next map key draft) ∧
      (∀ intercept, (∀ id, Asks action world.heap id → intercept id = host.intercept id) →
        current.execute { host with intercept } position instr world =
          current.execute host position instr world) ∧
      World.Alters (fun map => hosted map ∨ action.Touches world map) world
        (current.execute host position instr world).2 ∧
      ∀ object, action.draft? = some (.map object) → Makes world current instr object := by
  have governs : host.Governs (Heap.Alters fun _ => True) :=
    { refl := .refl
      trans := .trans
      execute := execute_alters keeps
      poll := fun id world => (keeps.poll id world).mono fun _ _ => trivial }
  refine ⟨governs.run changes run, fun next map key draft _ => ?_, fun intercept same => ?_, ?_, ?_⟩
  · exact perform_announces keeps next map key draft
  · simp only [execute_eq, planned]
    exact perform_of_asks same
  · simp only [execute_eq, planned]
    exact perform_alters keeps action
  · exact plan_makes world current position instr action planned

end Machine

/-- A host that refuses every write it hears of. -/
def Host.refusing : Host Unit :=
  { Host.silent with
    intercept := fun _ _ _ world => (.error { fault := .library "rejected" }, world) }

theorem Host.refusing_keeps {relation : World Unit → World Unit → Prop}
    (refl : ∀ world, relation world world) : Host.refusing.Keeps relation where
  call _ _ world := refl world
  poll _ world := refl world
  intercept _ _ _ world := refl world
  load := nofun

/-- The variables are empty and writes to `k` are announced; there is another empty map and the
function that adds a key to a map. -/
def World.watched : World Unit :=
  { World.initial {} () with
    heap :=
      { maps := #[{ interceptors := [⟨.text "k", 0, 7⟩] }, {}]
        scopes := #[⟨⟨0⟩, none⟩]
        functions := #[⟨none, [⟨selfName, .null⟩, ⟨"value", .null⟩], .builtin .push⟩] }
    globals := ⟨0⟩ }

/-- A machine with those operands. -/
def Machine.holding (stack : List Value) : Machine :=
  { Machine.start {} ⟨0⟩ with stack }

/-- An assignment to a variable that is watched is refused, and the variable does not come to be. -/
theorem Machine.watched_variable_is_kept :
    let outcome := (Machine.holding [.null]).execute .refusing 0
      { op := .assignVar, first := .name "k" } .watched
    Machine.Asks (.store (.holding []) ⟨0⟩ (.text "k") (.plain .null)) World.watched.heap 7 ∧
      outcome = (.error (.runtime { fault := .library "rejected" }), .watched) ∧
      outcome.2.heap.entries ⟨0⟩ = [] := by
  have plans : plan World.watched (Machine.holding [.null]) 0
      { op := .assignVar, first := .name "k" } =
        .ok (.store (.holding []) ⟨0⟩ (.text "k") (.plain .null)) := rfl
  have keeps : Host.refusing.Keeps (World.Alters fun _ => False) :=
    Host.refusing_keeps fun world => .refl world.heap
  have run : Machine.Run .refusing Eq (.holding []) World.watched (.holding []) .watched := .start
  have changes (before after : World Unit) (same : before = after) :
      World.Alters (fun _ => True) before after := same ▸ .refl before.heap
  have announced := (Machine.stores_ask_the_interceptor_of_their_map keeps changes run plans).2.1
    _ _ _ _ rfl
  have refused := announced.refused 7 { fault := .library "rejected" } .watched rfl rfl
  refine ⟨⟨_, _, _, _, rfl, rfl⟩, refused.1, ?_⟩
  exact refused.2 (by decide) not_false

/-- `push` stores under a key whose interceptor refuses every write, and the interceptor refuses a
store into a sum, which is another map. -/
theorem Machine.push_and_sum_evade_interceptors :
    World.watched.heap.interceptor? ⟨0⟩ (.text "k") = some 7 ∧
      (∃ pushed after,
        (Machine.holding [.text "k", .map ⟨0⟩, .function ⟨⟨0⟩, none⟩]).execute .refusing 0
          { op := .callValue, first := .int 2 } .watched = (.ok pushed, after) ∧
        (after.heap.entries ⟨0⟩).map (·.key) = [.text "k"]) ∧
      ∃ after, (Machine.holding [.map ⟨1⟩, .map ⟨0⟩]).execute .refusing 0
          { op := .binary, first := .op .add } .watched = (.ok (.holding [.map ⟨2⟩]), after) ∧
        ((Machine.holding [.null, .text "k", .map ⟨2⟩]).execute .refusing 0 { op := .assignIndex }
          after).1 = .error (.runtime { fault := .library "rejected" }) := by
  exact ⟨rfl, ⟨_, _, rfl, rfl⟩, _, rfl, rfl⟩

end MiniScript
