import MiniScript.Proofs.Machine.Run
import MiniScript.Proofs.Machine.Lifecycle
import MiniScript.Proofs.Machine.Waits

/-!
# No lost wake-up

A deferred result tells one waiter of its resolution. A machine that is on the
list of those who have been told, or in the place of the one who will be, hears of
it; nothing that machines do and no completion from outside changes that, except
that another machine begins to wait in its place. So as long as natives hand out
only handles for which nobody waits, a machine is found waiting only while its
handle is unresolved. A handle that two machines share breaks this: the second
takes the place of the first, which is then never told.
-/

namespace MiniScript

namespace Deferred

variable {deferred : Deferred Provider} {waiter other : Nat}

/-- The waiter has been told of the resolution, or will be. -/
structure Hears (deferred : Deferred Provider) (waiter : Nat) : Prop where
  told : deferred.resolved = true → waiter ∈ deferred.woken
  next : deferred.isOpen = true → deferred.waiter = some waiter

/-- Whoever asks to be told will be, and takes the place of nobody. -/
structure Free (deferred : Deferred Provider) : Prop where
  alone : deferred.isOpen = true → deferred.waiter = none
  kept : deferred.resolved = true → deferred.cancelled = false

theorem hears_fresh {source : Option Provider} :
    ¬ ({ source } : Deferred Provider).Hears waiter :=
  fun hears => Option.some_ne_none waiter (hears.next rfl).symm

theorem free_fresh {source : Option Provider} : ({ source } : Deferred Provider).Free :=
  ⟨fun _ => rfl, fun _ => rfl⟩

namespace Hears

theorem resolve (hears : deferred.Hears waiter) (result : Delivery) :
    (deferred.resolve result).Hears waiter := by
  unfold Deferred.resolve
  split
  · rename_i isOpen
    refine ⟨fun _ => ?_, fun still => Bool.noConfusion still⟩
    rw [hears.next isOpen]
    exact List.mem_cons_self
  · exact hears

theorem take (hears : deferred.Hears waiter) : deferred.take.Hears waiter :=
  ⟨hears.told, hears.next⟩

theorem cancel (hears : deferred.Hears waiter) : deferred.cancel.Hears waiter := by
  refine ⟨hears.told, fun isOpen => ?_⟩
  have closed : deferred.cancel.isOpen = false := Machine.isOpen_of_cancelled rfl
  exact Bool.noConfusion (closed.symm.trans isOpen)

theorem lend (hears : deferred.Hears waiter) : deferred.lend.Hears waiter :=
  ⟨hears.told, hears.next⟩

theorem settle (hears : deferred.Hears waiter) (answer : Option Delivery) (source : Provider) :
    (deferred.settle answer source).Hears waiter := by
  cases answer with
  | some result => exact hears.resolve result
  | none =>
      unfold Deferred.settle
      dsimp only
      split
      · exact ⟨hears.told, hears.next⟩
      · exact hears

/-- Nobody waits for a free handle, so nobody is put out. -/
theorem onReady (hears : deferred.Hears waiter) (free : deferred.Free) :
    (deferred.onReady other).Hears waiter := by
  unfold Deferred.onReady
  split
  · exact hears
  · rename_i uncancelled
    split
    · rename_i resolved
      exact ⟨fun _ => List.mem_cons_of_mem _ (hears.told resolved), hears.next⟩
    · rename_i unresolved
      have isOpen : deferred.isOpen = true := by
        rw [Deferred.isOpen, Bool.eq_false_iff.mpr unresolved, Bool.eq_false_iff.mpr uncancelled]
        rfl
      exact absurd ((free.alone isOpen).symm.trans (hears.next isOpen)).symm
        (Option.some_ne_none waiter)

end Hears

theorem Free.hears (free : deferred.Free) : (deferred.onReady waiter).Hears waiter := by
  unfold onReady
  split
  · rename_i cancelled
    refine ⟨fun resolved => ?_, fun isOpen => ?_⟩
    · exact Bool.noConfusion ((free.kept resolved).symm.trans cancelled)
    · exact Bool.noConfusion ((Machine.isOpen_of_cancelled cancelled).symm.trans isOpen)
  · split
    · rename_i resolved
      refine ⟨fun _ => List.mem_cons_self, fun isOpen => ?_⟩
      exact Bool.noConfusion ((Machine.isOpen_of_resolved resolved).symm.trans isOpen)
    · rename_i unresolved
      exact ⟨fun resolved => absurd resolved unresolved, fun _ => rfl⟩

end Deferred

/-- Everybody who hears of a result still does. -/
def World.Hearing {σ : Type} (before after : World σ) : Prop :=
  ∀ ref waiter, (before.deferred ref).Hears waiter → (after.deferred ref).Hears waiter

/-- The natives of the host promise only results for which nobody waits. -/
def Host.HandsFree {σ : Type} (host : Host σ) : Prop :=
  ∀ id call world ref yields after, host.call id call world = (.ok ⟨.pending ref, yields⟩, after) →
    ref.index < after.deferreds.size ∧ (after.deferred ref).Free

namespace World

variable {σ : Type} {host : Host σ} {world after middle : World σ}

namespace Hearing

theorem refl (world : World σ) : Hearing world world :=
  fun _ _ hears => hears

theorem trans {first second third : World σ} (before : Hearing first second)
    (after : Hearing second third) : Hearing first third :=
  fun ref waiter hears => after ref waiter (before ref waiter hears)

theorem ofQuiet (quiet : Quiet world after) : Hearing world after := by
  intro ref waiter hears
  rw [quiet.deferred]
  exact hears

theorem ofModify (world : World σ) {ref : DeferredRef}
    {change : Deferred Provider → Deferred Provider}
    (keeps : ∀ waiter, (world.deferred ref).Hears waiter →
      (change (world.deferred ref)).Hears waiter) :
    Hearing world (world.modifyDeferred ref change) := by
  intro other waiter hears
  by_cases same : other = ref
  · subst same
    rcases Nat.lt_or_ge other.index world.deferreds.size with known | unknown
    · rw [deferred_modifyDeferred_self world other change known]
      exact keeps waiter hears
    · rw [deferred_of_size_le unknown] at hears
      exact absurd hears Deferred.hears_fresh
  · rw [deferred_modifyDeferred_of_ne world ref other change same]
    exact hears

theorem ofDefer (world : World σ) (source : Option Provider) :
    Hearing world (world.addDeferred source) := by
  intro ref waiter hears
  rcases Nat.lt_or_ge ref.index world.deferreds.size with known | unknown
  · rw [deferred_addDeferred_of_lt source known]
    exact hears
  · rw [deferred_of_size_le unknown] at hears
    exact absurd hears Deferred.hears_fresh

end Hearing

theorem Asks.hearing (heard : host.Keeps Hearing) {promised : Option DeferredRef}
    (asks : Asks host world promised after) : Hearing world after := by
  cases asks with
  | nothing quiet => exact .ofQuiet quiet
  | leave id key value quiet stored =>
      exact (Hearing.ofQuiet quiet).trans ((heard.intercept id key value _).trans (.ofQuiet stored))
  | answer quiet id call => exact (Hearing.ofQuiet quiet).trans (heard.call id call _)
  | @promise before _ id call _ _ quiet promised =>
      have called := heard.call id call before
      rw [promised] at called
      exact (Hearing.ofQuiet quiet).trans called
  | sleep quiet deadline => exact (Hearing.ofQuiet quiet).trans (.ofDefer _ _)
  | seek quiet loads name => exact (Hearing.ofQuiet quiet).trans (heard.load _ loads name _)
  | @start before _ load name _ _ _ quiet loads uncached unloaded answered compiled scope =>
      have loaded := heard.load load loads name before
      rw [answered] at loaded
      exact (Hearing.ofQuiet quiet).trans (loaded.trans (.ofDefer _ _))

/-- What an instruction makes a machine wait for is in the world and free. -/
theorem Asks.free (hands : host.HandsFree) {ref : DeferredRef}
    (asks : Asks host world (some ref) middle) :
    ref.index < middle.deferreds.size ∧ (middle.deferred ref).Free := by
  have added (before : World σ) (source : Option Provider) :
      before.nextDeferred.index < (before.addDeferred source).deferreds.size ∧
        ((before.addDeferred source).deferred before.nextDeferred).Free := by
    rw [deferred_nextDeferred]
    refine ⟨?_, Deferred.free_fresh⟩
    simp only [nextDeferred, addDeferred, Array.size_push, Nat.lt_succ_self]
  cases asks with
  | promise quiet promised => exact hands _ _ _ _ _ _ promised
  | sleep quiet deadline => exact added _ _
  | start quiet loads uncached unloaded answered compiled scope => exact added _ _

theorem hearing_awaiting {ref : DeferredRef} (free : (world.deferred ref).Free) :
    Hearing world (world.awaiting ref) :=
  .ofModify world fun _ hears => hears.onReady free

theorem hears_awaiting {ref : DeferredRef} (known : ref.index < world.deferreds.size)
    (free : (world.deferred ref).Free) :
    ((world.awaiting ref).deferred ref).Hears world.suspensions := by
  have changed := deferred_modifyDeferred_self world ref (·.onReady world.suspensions) known
  have same : (world.awaiting ref).deferred ref =
      (world.deferred ref).onReady world.suspensions := changed
  rw [same]
  exact free.hears

/-- Giving up only ends what others wait for. -/
theorem hearing_cancelWithin (fuel : Nat) (ref : DeferredRef) (world : World σ) :
    Hearing world (cancelWithin fuel ref world) := by
  induction fuel generalizing ref world with
  | zero => exact .ofModify world fun _ hears => hears.cancel
  | succ fuel ih =>
      have cancelled : Hearing world (world.modifyDeferred ref .cancel) :=
        .ofModify world fun _ hears => hears.cancel
      unfold cancelWithin
      dsimp only
      split
      · split
        · exact cancelled.trans (ih _ _)
        · exact cancelled
      · exact cancelled

theorem hearing_cancelWait (machine : Machine) (world : World σ) :
    Hearing world (world.cancelWait machine) := by
  unfold cancelWait
  split
  · exact hearing_cancelWithin _ _ world
  · exact .refl world

/-- Giving up does no harm to those who hear of a result, whoever does it. -/
theorem hearing_indifferent (first : World σ) :
    Indifferent fun _ world => Hearing first world where
  same before := before
  gives before machine := before.trans (hearing_cancelWait machine _)

theorem hearing_release (machine : Machine) (world : World σ) :
    Hearing world (world.release machine) := by
  unfold release
  split
  · exact .refl world
  · split
    · exact hearing_cancelWithin _ _ world
    · exact .refl world

end World

section

variable {σ : Type} {host : Host σ} (heard : host.Keeps World.Hearing) (hands : host.HandsFree)

include heard hands

open World

/-- Whatever a machine does, those who hear of a result still do. -/
theorem World.hearing_waitInvariant {poll : Poller σ}
    (polls : ∀ ref world, Hearing world (poll ref world)) (first : World σ) :
    WaitInvariant host poll fun _ world => Hearing first world where
  asks before asks := before.trans (asks.hearing heard)
  waits before asks :=
    (before.trans (asks.hearing heard)).trans (hearing_awaiting (asks.free hands).2)
  looks before := before.trans (polls _ _)
  takes before _ := before.trans (.ofModify _ fun _ hears => hears.take)

/-- The bodies of modules are machines as well, and what they wait for is polled one level
deeper. -/
theorem World.hearing_pollWithin (level : Nat) (ref : DeferredRef) (world : World σ) :
    Hearing world (pollWithin host level ref world) := by
  induction level generalizing ref world with
  | zero => exact .refl world
  | succ level ih =>
      have settled (world : World σ) (answer : Option Delivery) (source : Provider) :
          Hearing world (world.modifyDeferred ref fun deferred => deferred.settle answer source) :=
        .ofModify world fun _ hears => hears.settle answer source
      have lent : Hearing world (world.modifyDeferred ref .lend) :=
        .ofModify world fun _ hears => hears.lend
      unfold pollWithin
      split
      · exact .refl world
      · refine lent.trans ?_
        dsimp only
        split
        · exact settled _ _ _
        · exact (heard.poll _ _).trans (settled _ _ _)
        · rename_i load _
          have keeps := hearing_waitInvariant heard hands ih (world.modifyDeferred ref .lend)
          have ran := @WaitInvariant.runCycles _ _ _ _ _ load.machine keeps
            (world.modifyDeferred ref .lend).limits.burstCycles (Or.inr (hearing_indifferent _))
            (.refl _)
          have finished (error : Option ScriptError) (before : World σ) :
              Hearing before (Library.finishModule load error before).2 := by
            unfold Library.finishModule
            dsimp only
            split
            · exact .refl before
            · exact .refl before
            · exact .refl before
          split
          · exact ran.trans ((finished _ _).trans (settled _ _ _))
          · exact ran.trans (settled _ _ _)

theorem World.hearing_poll (ref : DeferredRef) (world : World σ) :
    Hearing world (poll host ref world) :=
  hearing_pollWithin heard hands _ ref world

end

namespace Machine

variable {σ : Type} {host : Host σ} {machine : Machine} {world after : World σ}

/-- The machine hears of what it waits for. -/
structure Listening (machine : Machine) (world : World σ) : Prop where
  coherent : machine.Coherent
  hears : ∀ wait, machine.wait? = some wait → (world.deferred wait.deferred).Hears wait.waiter

theorem Listening.ofAwake (coherent : machine.Coherent) (awake : machine.wait? = none) :
    machine.Listening world where
  coherent := coherent
  hears wait waiting := absurd (waiting.symm.trans awake) (Option.some_ne_none wait)

theorem Listening.later (listening : machine.Listening world)
    (hearing : World.Hearing world after) : machine.Listening after where
  coherent := listening.coherent
  hears wait waiting := hearing _ _ (listening.hears wait waiting)

/-- Who hears of a resolved result has been told of it. -/
theorem isWoken_of_hears {wait : Wait} (hears : (world.deferred wait.deferred).Hears wait.waiter)
    (resolved : (world.deferred wait.deferred).resolved = true) : world.isWoken wait = true := by
  rw [World.isWoken, List.contains_eq_mem]
  exact decide_eq_true (hears.told resolved)

/-- A machine that begins to wait for a free handle hears of it from then on. -/
theorem listening_waitInvariant (hands : host.HandsFree) {poll : Poller σ}
    (polls : ∀ ref world, World.Hearing world (poll ref world)) :
    WaitInvariant host poll fun wait? world =>
      ∀ wait, wait? = some wait → (world.deferred wait.deferred).Hears wait.waiter where
  asks _ _ wait waiting := absurd waiting.symm (Option.some_ne_none wait)
  waits _ asks wait waiting := by
    cases waiting
    obtain ⟨known, free⟩ := asks.free hands
    exact World.hears_awaiting known free
  looks before wait waiting := polls _ _ _ _ (before wait waiting)
  takes _ _ wait waiting := absurd waiting.symm (Option.some_ne_none wait)

theorem pause_listening (listening : machine.Listening world) :
    World.Hearing world (machine.pause world).world ∧
      (machine.pause world).machine.Listening (machine.pause world).world := by
  unfold pause
  split
  · exact ⟨.refl world, listening⟩
  · split
    · exact ⟨.refl world, listening⟩
    · split
      · exact ⟨.ofQuiet (.ofPass world _), listening.later (.ofQuiet (.ofPass world _))⟩
      · exact ⟨World.hearing_cancelWait machine world, .ofAwake (halted_coherent machine) rfl⟩

theorem stop_listening (listening : machine.Listening world) :
    World.Hearing world (machine.stop world).world ∧
      (machine.stop world).machine.Listening (machine.stop world).world := by
  unfold stop
  split
  · exact ⟨.refl world, listening⟩
  · exact ⟨World.hearing_cancelWait machine world, .ofAwake (halted_coherent machine) rfl⟩

/-- Whatever a machine is asked, it and all others go on hearing of what they wait for. -/
theorem serve_listening (heard : host.Keeps World.Hearing) (hands : host.HandsFree)
    (listening : machine.Listening world) (request : Request) :
    World.Hearing world (machine.serve host world request).world ∧
      (machine.serve host world request).machine.Listening
        (machine.serve host world request).world := by
  have polls := World.hearing_poll heard hands
  have others := World.hearing_waitInvariant heard hands polls world
  have itself := listening_waitInvariant hands polls
  have coherent : (machine.serve host world request).machine.Coherent :=
    serve_coherent listening.coherent world request
  have fits {holds : Option Wait → World σ → Prop} : machine.Coherent ∨ Indifferent holds :=
    Or.inl listening.coherent
  cases request with
  | step => exact ⟨others.step fits (.refl world), coherent, itself.step fits listening.hears⟩
  | cycles budget =>
      exact ⟨others.runCycles budget fits (.refl world), coherent,
        itself.runCycles budget fits listening.hears⟩
  | burst =>
      exact ⟨others.runCycles _ fits (.refl world), coherent,
        itself.runCycles _ fits listening.hears⟩
  | resume => exact ⟨others.resume (.refl world), coherent, itself.resume listening.hears⟩
  | pause => exact pause_listening listening
  | stop => exact stop_listening listening

/-- The machine is found waiting, or its wait hopeless, only while nothing has been delivered. -/
structure WakesUp (host : Host σ) (machine : Machine) (world : World σ) : Prop where
  resumes : ∀ wait, (machine.serve host world .resume).machine.wait? = some wait →
    ((machine.serve host world .resume).world.deferred wait.deferred).resolved = false
  endures : ∀ wait, machine.wait? = some wait → (machine.serve host world .pause).error ≠ none →
    (world.deferred wait.deferred).resolved = false

theorem awaken_wait? (ref : DeferredRef) : (machine.awaken ref world).machine.wait? = none := by
  unfold awaken
  dsimp only
  split
  · rfl
  · rfl
  · rfl

/-- A machine that still waits after it has looked for its result has not been told of it. -/
theorem isWoken_of_resume_waits {poll : Poller σ} {wait : Wait}
    (waits : (machine.resume poll world).machine.wait? = some wait) :
    (machine.resume poll world).world.isWoken wait = false := by
  unfold resume at waits ⊢
  split
  · rename_i awake
    simp only [awake] at waits
    exact absurd waits.symm (Option.some_ne_none wait)
  · rename_i before waiting
    simp only [waiting] at waits
    dsimp only
    split at waits
    · rw [awaken_wait?] at waits
      exact absurd waits.symm (Option.some_ne_none wait)
    · rename_i asleep
      rw [waiting] at waits
      cases waits
      rw [if_neg asleep]
      exact Bool.eq_false_iff.mpr asleep

theorem Listening.wakesUp (heard : host.Keeps World.Hearing) (hands : host.HandsFree)
    (listening : machine.Listening world) : machine.WakesUp host world := by
  refine ⟨fun wait waits => ?_, fun wait waiting failed => ?_⟩
  · have hears := (serve_listening heard hands listening .resume).2.hears wait waits
    refine Bool.eq_false_iff.mpr fun resolved => ?_
    exact Bool.noConfusion ((isWoken_of_hears hears resolved).symm.trans
      (isWoken_of_resume_waits waits))
  · refine Bool.eq_false_iff.mpr fun resolved => failed ?_
    have woken := isWoken_of_hears (listening.hears wait waiting) resolved
    simp only [serve, pause, waiting, woken, if_true]

end Machine

namespace Fleet

variable {σ : Type} {host : Host σ} {fleet later : Fleet σ}

theorem Step.listening (heard : host.Keeps World.Hearing) (hands : host.HandsFree)
    (step : Step host World.Hearing fleet later)
    (listening : ∀ machine ∈ fleet.machines, machine.Listening fleet.world) :
    ∀ machine ∈ later.machines, machine.Listening later.world := by
  cases step with
  | spawn machines world code scope =>
      intro machine member
      rcases List.mem_cons.mp member with rfl | old
      · exact .ofAwake (Machine.start_coherent code scope) rfl
      · exact listening machine old
  | serve before machine after world request =>
      obtain ⟨others, itself⟩ := Machine.serve_listening heard hands
        (listening machine (List.mem_append_right before List.mem_cons_self)) request
      intro other member
      rcases List.mem_append.mp member with first | last
      · exact (listening other (List.mem_append_left _ first)).later others
      · rcases List.mem_cons.mp last with rfl | last
        · exact itself
        · have old := List.mem_append_right before (List.mem_cons_of_mem machine last)
          exact (listening other old).later others
  | drop before machine after world =>
      intro other member
      refine (listening other ?_).later (World.hearing_release machine world)
      rcases List.mem_append.mp member with first | last
      · exact List.mem_append_left _ first
      · exact List.mem_append_right _ (List.mem_cons_of_mem _ last)
  | change machines changed =>
      intro machine member
      exact (listening machine member).later changed

/-- However many machines are started, driven, stopped and thrown away, and however results are
delivered and given up meanwhile, none of them misses the result it waits for. -/
theorem free_handles_lose_no_wake_up (heard : host.Keeps World.Hearing) (hands : host.HandsFree)
    {initial : World σ} (run : Run host World.Hearing { world := initial } fleet) :
    ∀ machine ∈ fleet.machines, machine.WakesUp host fleet.world := by
  have listening : ∀ machine ∈ fleet.machines, machine.Listening fleet.world := by
    induction run with
    | refl => exact fun machine none => absurd none List.not_mem_nil
    | tail before step ih => exact step.listening heard hands ih
  exact fun machine member => (listening machine member).wakesUp heard hands

end Fleet

/-- Two machines with the same program: the first runs, then the second, then the world changes. -/
theorem Fleet.run_pair {σ : Type} {host : Host σ} {outside : World σ → World σ → Prop} {code : Code}
    {scope : ScopeRef} {first second : Machine} {initial middle world later : World σ}
    {request : Request}
    (served : (Machine.start code scope).serve host initial request =
      { machine := first, world := middle })
    (again : (Machine.start code scope).serve host middle request =
      { machine := second, world := world })
    (changed : outside world later) :
    Run host outside { world := initial } ⟨[second, first], later⟩ := by
  have serves (others : List Machine) {before after : World σ} {machine : Machine}
      (same : (Machine.start code scope).serve host before request =
        { machine, world := after }) :
      Step host outside ⟨.start code scope :: others, before⟩ ⟨machine :: others, after⟩ := by
    have step : Step host outside ⟨[] ++ .start code scope :: others, before⟩ _ :=
      .serve [] _ others before request
    rw [same] at step
    exact step
  have started : Run host outside { world := initial } ⟨[.start code scope], initial⟩ :=
    .single (.spawn [] initial code scope)
  exact (((started.tail (serves [] served)).tail (.spawn [first] middle code scope)).tail
    (serves [first] again)).tail (.change [second, first] changed)

theorem Host.slow_hearing : Host.slow.Keeps World.Hearing where
  call _ _ world := .ofDefer world none
  poll _ world := .refl world
  intercept _ _ _ world := .refl world
  load _ loads := absurd loads.symm (Option.some_ne_none _)

theorem Host.slow_handsFree : Host.slow.HandsFree := by
  rintro id call world ref yields after ⟨⟩
  rw [World.deferred_nextDeferred]
  refine ⟨?_, Deferred.free_fresh⟩
  simp only [World.nextDeferred, World.addDeferred, Array.size_push, Nat.lt_succ_self]

/-- The world with one native after some time, with the deferred results it has by then. -/
def World.nativeAt (clock suspensions : Nat) (deferreds : Array (Deferred Provider)) : World Unit :=
  { World.withNative {} with clock, suspensions, deferreds }

/-- A machine that has called the native of its world and waits for the answer. -/
def Machine.calling (wait : Wait) : Machine where
  frame := { code := .leftoverCall, position := 2, scope := ⟨0⟩ }
  status := .suspended
  wait? := some wait
  lastCallNative := true

/-- A host delivers a result. -/
def World.Completes {σ : Type} (before after : World σ) : Prop :=
  ∃ ref result, after = before.modifyDeferred ref fun deferred => deferred.resolve result

theorem World.Completes.hearing {σ : Type} {before after : World σ}
    (completes : Completes before after) : Hearing before after := by
  obtain ⟨ref, result, rfl⟩ := completes
  exact .ofModify before fun _ hears => hears.resolve result

/-- The deferred result that null has been delivered to, and who was told. -/
def Deferred.delivered (woken : List Nat) : Deferred Provider :=
  { result := some (.ok .null), resolved := true, woken }

/-- Each of two machines waits for a handle of its own, and the first one's is completed. -/
theorem Fleet.own_handles_lose_no_wake_up :
    let first := Machine.calling ⟨⟨0⟩, 0⟩
    let second := Machine.calling ⟨⟨1⟩, 1⟩
    let world := World.nativeAt 4000 2 #[.delivered [0], { waiter := some 1 }]
    (world.deferred ⟨0⟩).resolved = true ∧
      ∀ machine ∈ [second, first], machine.WakesUp .slow world := by
  intro first second world
  have completed : World.Completes
      (.nativeAt 4000 2 #[{ waiter := some 0 }, { waiter := some 1 }]) world :=
    ⟨⟨0⟩, .ok .null, rfl⟩
  have served : (Machine.start .leftoverCall ⟨0⟩).serve .slow (.nativeAt 0 0 #[]) (.cycles 2) =
      { machine := first, world := .nativeAt 2000 1 #[{ waiter := some 0 }] } := rfl
  refine ⟨rfl, ?_⟩
  exact free_handles_lose_no_wake_up Host.slow_hearing Host.slow_handsFree
    (run_pair served rfl completed.hearing)

/-- A host whose natives all promise one and the same result. -/
def Host.sharing : Host Unit :=
  { Host.slow with call := fun _ _ world => (.ok { answer := .pending ⟨0⟩ }, world) }

/-- Two machines wait for one handle. The second one has taken the place of the first, which is not
told of the result: it goes on waiting, and its wait is found hopeless. -/
theorem Fleet.shared_handle_loses_wake_up :
    let first := Machine.calling ⟨⟨0⟩, 0⟩
    let world := World.nativeAt 4000 2 #[.delivered [1]]
    Run .sharing World.Completes { world := .nativeAt 0 0 #[{}] }
        ⟨[.calling ⟨⟨0⟩, 1⟩, first], world⟩ ∧
      (world.deferred ⟨0⟩).resolved = true ∧
      first.serve .sharing world .resume = { machine := first, world } ∧
      (first.serve .sharing world .pause).error = some (.internal .hopeless) := by
  intro first world
  have completed : World.Completes (.nativeAt 4000 2 #[{ waiter := some 1 }]) world :=
    ⟨⟨0⟩, .ok .null, rfl⟩
  have served : (Machine.start .leftoverCall ⟨0⟩).serve .sharing (.nativeAt 0 0 #[{}]) (.cycles 2) =
      { machine := first, world := .nativeAt 2000 1 #[{ waiter := some 0 }] } := rfl
  exact ⟨run_pair served rfl completed, rfl, rfl, rfl⟩

end MiniScript
