import MiniScript.Proofs.Machine.Discipline
import MiniScript.Proofs.Module.Order

/-!
# What becomes of a load

A machine that waits for a load waits for all the loads behind it as well: those
that its body waits for, and so on. After the machine has been asked for something,
each of them is still there, or its module is remembered, or its name is free
again; and the last happens only if the machine has failed or goes on waiting. When
the machine is ended or thrown away, the names of all of them are free.
-/

namespace MiniScript

namespace World

variable {σ : Type} {host : Host σ} {mine : σ → DeferredRef → Prop}
variable {past : String → Value → Prop} {lent : List (DeferredRef × String)}
variable {held : DeferredRef → Prop} {world after : World σ} {first ref target : DeferredRef}
variable {load : ModuleLoad} {name : String}

/-- A load that somebody waits for who waits for `first`. -/
inductive Behind (world : World σ) : DeferredRef → DeferredRef → ModuleLoad → Prop where
  | here {ref : DeferredRef} {load : ModuleLoad}
      (running : (world.deferred ref).load? = some load) : Behind world ref ref load
  | inside {outer next ref : DeferredRef} {other load : ModuleLoad}
      (running : (world.deferred outer).load? = some other)
      (waits : other.machine.awaited? = some next) (rest : Behind world next ref load) :
      Behind world outer ref load

/-- The load of a name is there. -/
def Loads (world : World σ) (ref : DeferredRef) (name : String) : Prop :=
  ∃ load, (world.deferred ref).load? = some load ∧ load.name = name

/-- The module of a name is remembered. -/
def Remembers (world : World σ) (name : String) : Prop :=
  ∃ value, world.cachedModule? name = some value

/-- A name is neither loading nor remembered. -/
structure Released (world : World σ) (name : String) : Prop where
  unloaded : name ∉ world.loading
  uncached : world.cachedModule? name = none

namespace Behind

theorem loads (behind : world.Behind first ref load) : (world.deferred ref).load? = some load := by
  induction behind with
  | here running => exact running
  | inside _ _ _ ih => exact ih

theorem starts (behind : world.Behind first ref load) :
    ∃ other, (world.deferred first).load? = some other := by
  cases behind with
  | here running => exact ⟨load, running⟩
  | @inside _ _ _ other _ running => exact ⟨other, running⟩

/-- The chain goes on with what the last load waits for. -/
theorem extend {next : DeferredRef} {inner : ModuleLoad} (behind : world.Behind first ref load)
    (waits : load.machine.awaited? = some next)
    (running : (world.deferred next).load? = some inner) : world.Behind first next inner := by
  induction behind with
  | here found => exact .inside found waits (.here running)
  | inside found follows _ ih => exact .inside found follows (ih waits)

/-- Only deferred results matter. -/
theorem congr (behind : world.Behind first ref load) (same : after.deferreds = world.deferreds) :
    after.Behind first ref load := by
  have alike (ref : DeferredRef) : after.deferred ref = world.deferred ref := by
    rw [World.deferred, World.deferred, same]
  induction behind with
  | here running => exact .here (alike _ ▸ running)
  | inside running waits _ ih => exact .inside (alike _ ▸ running) waits ih

theorem onward (books : Books host mine past lent held world) {outer next : DeferredRef}
    {other : ModuleLoad} (running : (world.deferred outer).load? = some other)
    (waits : other.machine.awaited? = some next) (rest : world.Behind next ref load) :
    outer.index < next.index := by
  obtain ⟨_, found⟩ := rest.starts
  exact books.onward running waits found

theorem le (books : Books host mine past lent held world) (behind : world.Behind first ref load) :
    first.index ≤ ref.index := by
  induction behind with
  | here => exact Nat.le_refl _
  | inside running waits rest ih =>
      exact Nat.le_trans (Nat.le_of_lt (onward books running waits rest)) ih

/-- A change of an older result leaves the loads behind a later one alone. -/
theorem modify (books : Books host mine past lent held world)
    (behind : world.Behind first ref load) (older : target.index < first.index)
    (change : Deferred Provider → Deferred Provider) :
    (world.modifyDeferred target change).Behind first ref load := by
  have other {later : DeferredRef} (beyond : target.index < later.index) :
      (world.modifyDeferred target change).deferred later = world.deferred later := by
    refine deferred_modifyDeferred_of_ne world target later change ?_
    rintro rfl
    exact Nat.lt_irrefl _ beyond
  induction behind with
  | here running => exact .here (other older ▸ running)
  | inside running waits rest ih =>
      refine .inside (other older ▸ running) waits (ih ?_)
      exact Nat.lt_trans older (onward books running waits rest)

end Behind

/-- Loads are begun one after another, so the chain of those who wait for a load ends at a result
that is held. -/
theorem Books.attended (books : Books host mine past lent held world)
    (running : (world.deferred ref).load? = some load) :
    ∃ first, held first ∧ world.Behind first ref load := by
  induction index : ref.index using Nat.strongRecOn generalizing ref load with
  | ind index ih =>
      rcases books.awaited ref load running with holds | ⟨outer, other, found, waits⟩
      · exact ⟨ref, holds, .here running⟩
      · have older := books.onward found waits running
        obtain ⟨first, holds, behind⟩ := ih outer.index (index ▸ older) found rfl
        exact ⟨first, holds, behind.extend waits running⟩

theorem cancelWithin_modules (fuel : Nat) (ref : DeferredRef) (world : World σ) :
    (cancelWithin fuel ref world).modules = world.modules := by
  induction fuel generalizing ref world with
  | zero => rfl
  | succ fuel ih =>
      unfold cancelWithin
      dsimp only
      split
      · split
        · exact ih _ _
        · rfl
      · rfl

theorem cancelWithin_loading_subset (fuel : Nat) (ref : DeferredRef) (world : World σ) :
    (cancelWithin fuel ref world).loading ⊆ world.loading := by
  induction fuel generalizing ref world with
  | zero => exact List.Subset.refl _
  | succ fuel ih =>
      unfold cancelWithin
      dsimp only
      split
      · refine List.Subset.trans List.filter_sublist.subset ?_
        split
        · exact ih _ _
        · exact List.Subset.refl _
      · exact List.Subset.refl _

theorem unloaded_givenUp : name ∉ (world.givenUp ref name).loading :=
  not_mem_filter_ne _ _

namespace Books

/-- Giving up a result frees the names of all loads behind it. -/
theorem unloaded_cancelWithin (fuel : Nat)
    (books : Books host mine past [] (Joined held (some first)) world)
    (enough : world.deferreds.size ≤ first.index + fuel) (behind : world.Behind first ref load) :
    load.name ∉ (World.cancelWithin fuel first world).loading := by
  induction fuel generalizing first world with
  | zero =>
      obtain ⟨other, found⟩ := behind.starts
      exact absurd (lt_size_of_load? found) (Nat.not_lt_of_le enough)
  | succ fuel ih =>
      cases behind with
      | here running =>
          intro listed
          cases waiting : load.machine.wait? with
          | none =>
              rw [cancelWithin_of_rests running waiting] at listed
              exact unloaded_givenUp listed
          | some wait =>
              rw [cancelWithin_of_waits running waiting] at listed
              exact unloaded_givenUp (cancelWithin_loading_subset _ _ _ listed)
      | @inside _ next _ other _ running waits rest =>
          have later := Behind.onward books running waits rest
          obtain ⟨wait, waiting, rfl⟩ := Option.map_eq_some_iff.mp waits
          have given := books.giveUp running
          rw [waits] at given
          have size : (world.givenUp first other.name).deferreds.size = world.deferreds.size :=
            Array.size_modify
          rw [cancelWithin_of_waits running waiting]
          exact ih given (by omega) ((rest.modify books later _).congr rfl)

/-- What is loading is not remembered. -/
theorem uncached (books : Books host mine past lent held world)
    (running : (world.deferred ref).load? = some load) : world.cachedModule? load.name = none :=
  books.ledger.uncached (books.ledger.listed.mpr ⟨ref, busy_of_load? running⟩)

/-- A machine that is ended while it waits for a load leaves the names of all loads behind it
free. -/
theorem released_cancel (books : Books host mine past [] (Joined held (some first)) world)
    (behind : world.Behind first ref load) : (world.cancel first).Released load.name where
  unloaded := books.unloaded_cancelWithin _ (Nat.le_add_left _ _) behind
  uncached := by
    rw [cachedModule?, World.cancel, cancelWithin_modules]
    exact books.uncached behind.loads

end Books

/-- What has become of a load behind `first` after a look for the result of `first`. -/
inductive Seen (world : World σ) (first ref : DeferredRef) (name : String) : Prop where
  | waits (untold : (world.deferred first).Untold)
      (left : world.Loads ref name ∨ world.Remembers name ∨ world.Released name)
  | ended (value : Value) (result : (world.deferred first).result = some (.ok value))
      (remembers : world.Remembers name)
      (bound : ref = first → world.cachedModule? name = some value)
  | failed (error : RuntimeError) (result : (world.deferred first).result = some (.error error))
      (left : ref ≠ first ∧ world.Remembers name ∨ world.Released name)

end World

/-- What has become of a load that a machine waited for, when the machine has come to `turn`. -/
inductive Turn.Fate {σ : Type} (turn : Turn σ) (before : Option Wait) (ref : DeferredRef)
    (name : String) : Prop where
  | waits (still : turn.machine.wait? = before) (loads : turn.world.Loads ref name)
  | remembered (remembers : turn.world.Remembers name)
  | released (ended : turn.error ≠ none ∨ turn.machine.wait? = before)
      (released : turn.world.Released name)

namespace World

variable {σ : Type} {host : Host σ} {mine : σ → DeferredRef → Prop}
variable {past : String → Value → Prop} {lent : List (DeferredRef × String)}
variable {held : DeferredRef → Prop} {world after : World σ} {first ref target : DeferredRef}
variable {load : ModuleLoad} {name : String} {turn : Turn σ}

theorem result_of_resolve (known : ref.index < world.deferreds.size)
    (isOpen : (world.deferred ref).isOpen = true) (delivery : Delivery) :
    ((world.modifyDeferred ref fun deferred => deferred.resolve delivery).deferred ref).result =
      some delivery := by
  rw [deferred_modifyDeferred_self _ _ _ known, Deferred.resolve, if_pos isOpen]

/-- How a look at a load can end: its body goes on, has left a value behind, or has failed. -/
inductive Looked (first : DeferredRef) (load : ModuleLoad) (turn : Turn σ) : World σ → Prop where
  | goesOn (unfinished : turn.machine.status ≠ .finished) :
      Looked first load turn (turn.world.modifyDeferred first fun deferred =>
        deferred.settle none (.module { load with machine := turn.machine }))
  | ended (value : Value) (finished : turn.machine.status = .finished) (fine : turn.error = none) :
      Looked first load turn ({ turn.world with
          loading := turn.world.loading.filter (· ≠ load.name)
          modules := putNamed turn.world.modules load.name value }.modifyDeferred first
        fun deferred => deferred.resolve (.ok value))
  | failed (error : RuntimeError) (finished : turn.machine.status = .finished)
      (bad : turn.error ≠ none) :
      Looked first load turn ({ turn.world with
          loading := turn.world.loading.filter (· ≠ load.name) }.modifyDeferred first
        fun deferred => deferred.resolve (.error error))

theorem looked_looked (first : DeferredRef) (load : ModuleLoad) (turn : Turn σ) :
    Looked first load turn (looked first load turn) := by
  unfold looked
  split
  · rename_i ended
    have finished : turn.machine.status = .finished := of_decide_eq_true ended
    unfold Library.finishModule
    cases failed : turn.error with
    | none => exact .ended _ finished failed
    | some error =>
        have bad : turn.error ≠ none := failed ▸ Option.some_ne_none error
        cases error with
        | runtime error => exact .failed error finished bad
        | _ => exact .failed _ finished bad
  · rename_i goesOn
    exact .goesOn fun finished => goesOn (decide_eq_true finished)

/-- The load that is looked at: its name stays taken, is remembered, or is free. -/
theorem Looked.seen_itself {outer : List (DeferredRef × String)}
    (looked : Looked first load turn after)
    (books : Books host mine past ((first, load.name) :: outer) held turn.world) :
    after.Seen first first load.name := by
  have taken : turn.world.Busy ((first, load.name) :: outer) first load.name :=
    Or.inl List.mem_cons_self
  have known := books.known first _ taken
  have untold := books.untold first _ taken
  have uncached := books.ledger.uncached (books.ledger.listed.mpr ⟨first, taken⟩)
  cases looked with
  | goesOn unfinished =>
      have settled := deferred_modifyDeferred_self turn.world first
        (fun deferred => deferred.settle none (.module { load with machine := turn.machine })) known
      rw [untold.settle_none] at settled
      refine .waits ?_ (Or.inl ⟨{ load with machine := turn.machine }, ?_, rfl⟩)
      · rw [settled]
        exact ⟨untold.isOpen, untold.woken⟩
      · rw [settled]
        rfl
  | ended value finished fine =>
      have cached : (putNamed turn.world.modules load.name value).lookup load.name = some value :=
        lookup_putNamed _ _ _
      refine .ended value ?_ ⟨value, cached⟩ fun _ => cached
      exact result_of_resolve known untold.isOpen (.ok value)
  | failed error finished bad =>
      refine .failed error ?_ (Or.inr ⟨not_mem_filter_ne _ _, uncached⟩)
      exact result_of_resolve known untold.isOpen (.error error)

/-- A load behind the one that is looked at: its fate is that of the body's turn. A body that has
ended without an error has seen all of them remembered. -/
theorem Looked.seen_inner {outer : List (DeferredRef × String)} {before : Option Wait}
    (looked : Looked first load turn after) (coherent : turn.machine.Coherent)
    (books : Books host mine past ((first, load.name) :: outer) held turn.world)
    (waited : before ≠ none) (later : ref ≠ first) (fate : turn.Fate before ref name) :
    after.Seen first ref name := by
  have taken : turn.world.Busy ((first, load.name) :: outer) first load.name :=
    Or.inl List.mem_cons_self
  have known := books.known first _ taken
  have untold := books.untold first _ taken
  have listed := books.ledger.listed.mpr ⟨first, taken⟩
  have awake (finished : turn.machine.status = .finished) : turn.machine.wait? ≠ before := by
    rw [coherent.free (finished ▸ nofun)]
    exact waited.symm
  have freed : turn.world.loading.filter (· ≠ load.name) ⊆ turn.world.loading :=
    List.filter_sublist.subset
  cases looked with
  | goesOn unfinished =>
      have same := deferred_modifyDeferred_of_ne turn.world first ref
        (fun deferred => deferred.settle none (.module { load with machine := turn.machine })) later
      have settled := deferred_modifyDeferred_self turn.world first
        (fun deferred => deferred.settle none (.module { load with machine := turn.machine })) known
      rw [untold.settle_none] at settled
      refine .waits ?_ ?_
      · rw [settled]
        exact ⟨untold.isOpen, untold.woken⟩
      · cases fate with
        | waits still loads =>
            obtain ⟨other, running, named⟩ := loads
            exact Or.inl ⟨other, same ▸ running, named⟩
        | remembered remembers => exact Or.inr (Or.inl remembers)
        | released ended released => exact Or.inr (Or.inr ⟨released.unloaded, released.uncached⟩)
  | ended value finished fine =>
      have remembers : turn.world.Remembers name := by
        cases fate with
        | waits still loads => exact absurd still (awake finished)
        | remembered remembers => exact remembers
        | released ended released =>
            exact absurd fine (ended.resolve_right (awake finished))
      refine .ended value (result_of_resolve known untold.isOpen (.ok value)) ?_
        fun here => absurd here later
      obtain ⟨other, cached⟩ := remembers
      have apart : name ≠ load.name := by
        rintro rfl
        exact Option.some_ne_none other (cached.symm.trans (books.ledger.uncached listed))
      exact ⟨other, (lookup_putNamed_of_ne apart _ _).trans cached⟩
  | failed error finished bad =>
      refine .failed error (result_of_resolve known untold.isOpen (.error error)) ?_
      cases fate with
      | waits still loads => exact absurd still (awake finished)
      | remembered remembers => exact Or.inl ⟨later, remembers⟩
      | released ended released =>
          exact Or.inr ⟨fun member => released.unloaded (freed member), released.uncached⟩

theorem isWoken_of_untold {wait : Wait} (untold : (world.deferred wait.deferred).Untold) :
    world.isWoken wait = false := by
  rw [isWoken, untold.woken]
  rfl

/-- From now on a name is remembered with its value. -/
theorem Books.recall {value : Value} (books : Books host mine past lent held world)
    (cached : world.cachedModule? name = some value) :
    Books host mine (fun title other => title = name ∧ other = value) lent held world := by
  refine { books with ledger := { books.ledger with kept := ?_ } }
  rintro _ _ ⟨rfl, rfl⟩
  exact cached

end World

namespace Machine

variable {σ : Type} {host : Host σ} {mine : σ → DeferredRef → Prop}
variable {past : String → Value → Prop} {lent : List (DeferredRef × String)}
variable {held : DeferredRef → Prop} {world : World σ} {poll : Poller σ} {machine : Machine}
variable {wait : Wait} {ref : DeferredRef} {name : String}

theorem attend_of_asleep (asleep : world.isWoken wait = false) :
    attend poll wait world = poll wait.deferred world := by
  rw [attend, asleep]
  rfl

theorem resume_of_untold (waiting : machine.wait? = some wait)
    (asleep : world.isWoken wait = false)
    (still : (poll wait.deferred world).isWoken wait = false) :
    machine.resume poll world = { machine, world := poll wait.deferred world } := by
  simp only [resume, waiting, attend_of_asleep asleep, still, Bool.false_eq_true, if_false]

theorem resume_of_told (waiting : machine.wait? = some wait) (asleep : world.isWoken wait = false)
    (woken : (poll wait.deferred world).isWoken wait = true) :
    machine.resume poll world = machine.awaken wait.deferred (poll wait.deferred world) := by
  simp only [resume, waiting, attend_of_asleep asleep, woken, if_true]

/-- A machine that looks for the result it waits for goes on only when that is there. -/
theorem resume_fate (waiting : machine.wait? = some wait) (asleep : world.isWoken wait = false)
    (seen : (poll wait.deferred world).Seen wait.deferred ref name) :
    (machine.resume poll world).Fate machine.wait? ref name := by
  cases woken : (poll wait.deferred world).isWoken wait with
  | false =>
      rw [resume_of_untold waiting asleep woken]
      cases seen with
      | waits untold left =>
          rcases left with loads | remembers | released
          · exact .waits rfl loads
          · exact .remembered remembers
          · exact .released (Or.inr rfl) released
      | ended value result remembers bound => exact .remembered remembers
      | failed error result left =>
          rcases left with ⟨_, remembers⟩ | released
          · exact .remembered remembers
          · exact .released (Or.inr rfl) released
  | true =>
      rw [resume_of_told waiting asleep woken]
      cases seen with
      | waits untold left =>
          exact Bool.noConfusion ((World.isWoken_of_untold untold).symm.trans woken)
      | ended value result remembers bound =>
          simp only [awaken, result]
          exact .remembered remembers
      | failed error result left =>
          have free : ({ machine with wait? := none } : Machine).wait? = none := rfl
          simp only [awaken, result, abort_of_no_wait free]
          rcases left with ⟨_, remembers⟩ | released
          · exact .remembered remembers
          · exact .released (Or.inl (Option.some_ne_none _)) ⟨released.unloaded, released.uncached⟩

/-- A machine that goes on has found its module remembered. -/
theorem remembers_of_goesOn {turn : Turn σ} (fate : turn.Fate (some wait) ref name)
    (goes : goesOn turn = true) : turn.world.Remembers name := by
  obtain ⟨fine, free⟩ := goesOn_iff.mp goes
  have awake : turn.machine.wait? ≠ some wait := by
    rw [free]
    exact (Option.some_ne_none wait).symm
  cases fate with
  | waits still loads => exact absurd still awake
  | remembered remembers => exact remembers
  | released ended released => exact absurd fine (ended.resolve_right awake)

/-- Where a step leads that begins while the machine waits. -/
theorem step_fate (waits : machine.WaitsFor wait) (asleep : world.isWoken wait = false)
    (seen : (poll wait.deferred world).Seen wait.deferred ref name) :
    (machine.step host poll world).Fate machine.wait? ref name ∧
      ((machine.step host poll world).machine.status = .running →
        (machine.step host poll world).world.Remembers name) := by
  have fate := resume_fate waits.wait asleep seen
  have coherent : machine.Coherent := waits.coherent
  have resumed := resume_coherent poll coherent world
  simp only [step, waits.status]
  split
  · rename_i goes
    have remembers := remembers_of_goesOn (waits.wait ▸ fate) goes
    rw [← settle_world (goesOn_iff.mp goes).2 (machine.resume poll world).world] at remembers
    exact ⟨.remembered remembers, fun _ => remembers⟩
  · rename_i stays
    refine ⟨fate, fun running => absurd (goesOn_iff.mpr ⟨?_, ?_⟩) stays⟩
    · by_contra failed
      cases running.symm.trans (resume_ended poll failed)
    · exact (resumed.active (Or.inr running)).awake

/-- After the module has been bound, it stays remembered however far the machine goes. -/
theorem runCycles_fate
    (keeps : ∀ past, WaitInvariant host poll (World.Orderly host mine past lent held))
    (orderly : World.Orderly host mine past lent held machine.wait? world)
    (waits : machine.WaitsFor wait) (untold : (world.deferred wait.deferred).Untold)
    (loads : world.Loads ref name)
    (seen : (poll wait.deferred world).Seen wait.deferred ref name) (budget : Nat) :
    (machine.runCycles host poll budget world).Fate machine.wait? ref name := by
  cases budget with
  | zero => exact .waits rfl loads
  | succ budget =>
      have coherent := waits.coherent
      have stepped := (keeps past).step (Or.inl coherent) orderly
      have fates : (machine.step host poll world).Fate machine.wait? ref name ∧ _ :=
        step_fate waits (World.isWoken_of_untold untold) seen
      obtain ⟨fate, remembers⟩ := fates
      unfold runCycles
      dsimp only
      split
      · rename_i running
        obtain ⟨value, cached⟩ := remembers running
        split
        · exact .remembered ⟨value, cached⟩
        · have rest := (keeps _).runCycles budget
            (Or.inl (step_coherent poll coherent world))
            ⟨stepped.books.recall cached, stepped.above⟩
          exact .remembered ⟨value, rest.books.ledger.kept ⟨rfl, rfl⟩⟩
      · exact fate

end Machine

namespace World

variable {σ : Type} {host : Host σ} {mine : σ → DeferredRef → Prop}
variable {past : String → Value → Prop} {lent : List (DeferredRef × String)}
variable {held : DeferredRef → Prop} {world : World σ} {wait : Wait} {ref : DeferredRef}
variable {load : ModuleLoad}

/-- A look for a result, for every load behind it. The body of the load that is looked at waits for
the rest of the chain, which is looked at one level deeper. -/
theorem Orderly.seen (lawful : host.Keeps (Custody mine)) (hands : host.HandsOwn mine) (level : Nat)
    (orderly : Orderly host mine past lent held (some wait) world)
    (behind : world.Behind wait.deferred ref load) :
    (World.pollWithin host level wait.deferred world).Seen wait.deferred ref load.name := by
  induction level generalizing lent held wait world with
  | zero =>
      obtain ⟨other, running⟩ := behind.starts
      refine .waits (orderly.books.untold _ _ (Books.busy_of_load? running)) ?_
      exact Or.inl ⟨load, behind.loads, rfl⟩
  | succ level ih =>
      obtain ⟨other, running⟩ := behind.starts
      have untold := orderly.books.untold _ _ (Books.busy_of_load? running)
      have pollable : (world.deferred wait.deferred).pollable? = some (.module other) := by
        rw [Deferred.pollable?, if_pos untold.isOpen, source_of_load? running]
      have keeps (past : String → Value → Prop) (lent : List (DeferredRef × String)) :
          WaitInvariant host (World.pollWithin host level) (Orderly host mine past lent held) :=
        orderly_waitInvariant lawful hands fun _ _ orderly => orderly.pollWithin lawful hands level
      have lends := orderly.lend running
      have began := (orderly.books.sound _ other running).ran.coherent
      have ran := (keeps past _).runCycles world.limits.burstCycles (Or.inl began) lends
      rw [pollWithin_load pollable]
      have looked := looked_looked wait.deferred other (other.machine.runCycles host
        (World.pollWithin host level) world.limits.burstCycles
        (world.modifyDeferred wait.deferred .lend))
      cases behind with
      | here found =>
          cases running.symm.trans found
          exact looked.seen_itself ran.books
      | inside found waits rest =>
          cases running.symm.trans found
          have later := Behind.onward orderly.books running waits rest
          have beyond := rest.modify orderly.books later .lend
          obtain ⟨inner, waiting, rfl⟩ := Option.map_eq_some_iff.mp waits
          obtain ⟨next, follows⟩ := beyond.starts
          have waitingFor := lends
          rw [waiting] at waitingFor
          have fate := Machine.runCycles_fate (fun past => keeps past _) lends
            (began.waitsFor waiting)
            (lends.books.untold _ _ (Books.busy_of_load? follows)) ⟨load, beyond.loads, rfl⟩
            (ih waitingFor beyond) world.limits.burstCycles
          refine looked.seen_inner (Machine.runCycles_coherent _ _ began _) ran.books ?_ ?_ fate
          · rw [waiting]
            exact Option.some_ne_none inner
          · rintro rfl
            exact Nat.lt_irrefl _ (Nat.lt_of_lt_of_le later (rest.le orderly.books))

end World

end MiniScript
