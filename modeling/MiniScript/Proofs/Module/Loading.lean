import MiniScript.Proofs.Module.Books

/-!
# The life of a module load

A load begins when a module is imported, is lent out while its body runs for a
burst, and is given back, or ends because the body has ended or because nobody
waits for it any more. Each of these keeps the books. From there, by induction on
how deep loads wait for other loads, a poll keeps them, and so does giving up a
whole chain of loads.
-/

namespace MiniScript

namespace World

variable {σ : Type} {host : Host σ} {mine : σ → DeferredRef → Prop}
variable {past : String → Value → Prop} {lent : List (DeferredRef × String)}
variable {held : DeferredRef → Prop} {world after middle : World σ} {ref : DeferredRef}
variable {load : ModuleLoad} {name : String}

theorem load?_modifyDeferred {change : Deferred Provider → Deferred Provider}
    (known : ref.index < world.deferreds.size) (other : DeferredRef) :
    ((world.modifyDeferred ref change).deferred other).load? =
      if other = ref then (change (world.deferred ref)).load?
      else (world.deferred other).load? := by
  rw [deferred_modifyDeferred, apply_ite Deferred.load?]
  simp only [known, and_true]

theorem load?_addDeferred_module (ref : DeferredRef) :
    ((world.addDeferred (some (.module load))).deferred ref).load? =
      if ref = world.nextDeferred then some load else (world.deferred ref).load? := by
  split
  · rename_i same
    rw [same, deferred_nextDeferred]
    rfl
  · rename_i apart
    rcases Nat.lt_or_ge ref.index world.deferreds.size with known | unknown
    · rw [deferred_addDeferred_of_lt _ known]
    · have beyond : (world.addDeferred (some (.module load))).deferreds.size ≤ ref.index := by
        rw [addDeferred, Array.size_push]
        refine Nat.lt_of_le_of_ne unknown fun same => apart ?_
        cases ref
        exact congrArg _ same.symm
      rw [deferred_of_size_le unknown, deferred_of_size_le beyond]

namespace Books

/-- What is not lent out is not among what is. -/
theorem fresh (books : Books host mine past lent held world)
    (loads : (world.deferred ref).load? = some load) : ∀ entry ∈ lent, entry.1 ≠ ref := by
  rintro entry member rfl
  exact Option.some_ne_none load (loads.symm.trans (books.away entry member))

theorem busy_of_load? (loads : (world.deferred ref).load? = some load) :
    world.Busy lent ref load.name :=
  Or.inr ⟨load, loads, rfl⟩

/-- The body of a load waits for loads that were begun later. -/
theorem onward (books : Books host mine past lent held world)
    (running : (world.deferred ref).load? = some load) {next : DeferredRef} {inner : ModuleLoad}
    (waits : load.machine.awaited? = some next)
    (found : (world.deferred next).load? = some inner) : ref.index < next.index :=
  ((books.sound ref load running).onward next waits).resolve_left fun idle =>
    idle.free inner.name (busy_of_load? found)

/-- A module begins to load under a free name. -/
theorem start (books : Books host mine past lent held world) (ran : load.Ran host)
    (ready : load.machine.status = .ready) (unloaded : load.name ∉ world.loading)
    (uncached : world.modules.lookup load.name = none) (modules : after.modules = world.modules)
    (loading : after.loading = load.name :: world.loading) (sameHost : after.host = world.host)
    (deferreds : after.deferreds = (world.addDeferred (some (.module load))).deferreds) :
    Books host mine past lent (Joined held (some world.nextDeferred)) after := by
  have same (ref : DeferredRef) :
      after.deferred ref = (world.addDeferred (some (.module load))).deferred ref := by
    rw [World.deferred, World.deferred, deferreds]
  have size : after.deferreds.size = world.deferreds.size + 1 := by
    rw [deferreds, addDeferred, Array.size_push]
  have loads (ref : DeferredRef) : (after.deferred ref).load? =
      if ref = world.nextDeferred then some load else (world.deferred ref).load? := by
    rw [same, load?_addDeferred_module]
  have old {ref : DeferredRef} (known : ref.index < world.deferreds.size) :
      ref ≠ world.nextDeferred := by
    rintro rfl
    exact Nat.lt_irrefl _ known
  have still {ref : DeferredRef} {other : ModuleLoad}
      (running : (world.deferred ref).load? = some other) :
      (after.deferred ref).load? = some other := by
    rw [loads, if_neg (old (lt_size_of_load? running)), running]
  have kindred : Kindred mine world after := .ofHost sameHost (size ▸ Nat.le_succ _)
  have busy (ref : DeferredRef) (name : String) : after.Busy lent ref name ↔
      world.Busy lent ref name ∨ ref = world.nextDeferred ∧ name = load.name := by
    constructor
    · rintro (member | ⟨other, running, rfl⟩)
      · exact Or.inl (Or.inl member)
      · rw [loads] at running
        split at running
        · rename_i here
          cases running
          exact Or.inr ⟨here, rfl⟩
        · exact Or.inl (Or.inr ⟨other, running, rfl⟩)
    · rintro ((member | ⟨other, running, rfl⟩) | ⟨rfl, rfl⟩)
      · exact Or.inl member
      · exact Or.inr ⟨other, still running, rfl⟩
      · exact Or.inr ⟨load, by rw [loads, if_pos rfl], rfl⟩
  have unowned : ¬ mine after.host world.nextDeferred := by
    rw [sameHost]
    exact fun owns => Nat.lt_irrefl _ (books.owned _ owns)
  have rests : load.machine.awaited? = none := by
    rw [Machine.awaited?, (ran.coherent.active (Or.inl ready)).awake]
    rfl
  refine books.rebook kindred ?_ ?_ ?_ ?_ ?_ ?_
  · intro ref name taken
    refine ((busy ref name).mp taken).imp_right ?_
    rintro ⟨rfl, _⟩
    exact ⟨Nat.le_refl _, size ▸ Nat.lt_succ_self _, unowned⟩
  · rw [modules, loading]
    exact books.ledger.enter unloaded uncached busy
  · intro ref name taken
    rcases (busy ref name).mp taken with before | ⟨rfl, _⟩
    · rw [same, deferred_addDeferred_of_lt _ (books.known ref name before)]
      exact books.untold ref name before
    · rw [same, deferred_nextDeferred]
      exact ⟨rfl, rfl⟩
  · intro entry member
    rw [loads, if_neg (old (books.known _ _ (Or.inl member)))]
    exact books.away entry member
  · intro ref other running
    rw [loads] at running
    split at running
    · cases running
      refine ⟨ran, by rw [ready]; exact Status.noConfusion, fun other waiting => ?_⟩
      exact absurd (waiting.symm.trans rests) (Option.some_ne_none other)
    · exact books.sound ref other running
  · intro ref other running
    rw [loads] at running
    split at running
    · rename_i here
      exact Or.inl (Or.inr (congrArg some here.symm))
    · refine (books.awaited ref other running).imp Or.inl ?_
      rintro ⟨outer, above, holds, waits⟩
      exact ⟨outer, above, still holds, waits⟩

theorem load?_lend (running : (world.deferred ref).load? = some load) (other : DeferredRef) :
    ((world.modifyDeferred ref .lend).deferred other).load? =
      if other = ref then none else (world.deferred other).load? :=
  load?_modifyDeferred (lt_size_of_load? running) other

/-- The name of a load that is lent out is still taken. -/
theorem busy_lend (running : (world.deferred ref).load? = some load) (other : DeferredRef)
    (name : String) :
    (world.modifyDeferred ref .lend).Busy ((ref, load.name) :: lent) other name ↔
      world.Busy lent other name := by
  constructor
  · rintro (member | ⟨stored, found, rfl⟩)
    · rcases List.mem_cons.mp member with same | member
      · cases same
        exact busy_of_load? running
      · exact Or.inl member
    · rw [load?_lend running] at found
      split at found
      · exact absurd found.symm (Option.some_ne_none stored)
      · exact busy_of_load? found
  · rintro (member | ⟨stored, found, rfl⟩)
    · exact Or.inl (List.mem_cons_of_mem _ member)
    · by_cases here : other = ref
      · subst here
        cases running.symm.trans found
        exact Or.inl List.mem_cons_self
      · exact Or.inr ⟨stored, by rw [load?_lend running, if_neg here, found], rfl⟩

/-- A load is lent out, and its body becomes the machine that acts. -/
theorem lend (books : Books host mine past lent (Joined held (some ref)) world)
    (running : (world.deferred ref).load? = some load) :
    Books host mine past ((ref, load.name) :: lent) (Joined held load.machine.awaited?)
      (world.modifyDeferred ref .lend) := by
  have loads := load?_lend running
  have busy (other : DeferredRef) (name : String) :
      (world.modifyDeferred ref .lend).Busy ((ref, load.name) :: lent) other name ↔
        world.Busy lent other name := busy_lend running other name
  refine books.rebook (.ofModify world ref _) ?_ (books.ledger.congr busy) ?_ ?_ ?_ ?_
  · exact fun other name taken => Or.inl ((busy other name).mp taken)
  · intro other name taken
    have before := books.untold other name ((busy other name).mp taken)
    rw [deferred_modifyDeferred]
    split
    · rename_i here
      exact (here.1 ▸ before).lend
    · exact before
  · intro entry member
    rw [loads]
    split
    · rfl
    · rename_i elsewhere
      rcases List.mem_cons.mp member with rfl | member
      · exact absurd rfl elsewhere
      · exact books.away entry member
  · intro other stored found
    rw [loads] at found
    split at found
    · exact absurd found.symm (Option.some_ne_none stored)
    · exact books.sound other stored found
  · intro other stored found
    rw [loads] at found
    split at found
    · exact absurd found.symm (Option.some_ne_none stored)
    · rename_i elsewhere
      rcases books.awaited other stored found with (before | here) | ⟨outer, above, holds, waits⟩
      · exact Or.inl (Or.inl before)
      · exact absurd (Option.some.inj here).symm elsewhere
      · by_cases lends : outer = ref
        · subst lends
          cases running.symm.trans holds
          exact Or.inl (Or.inr waits)
        · exact Or.inr ⟨outer, above, by rw [loads, if_neg lends, holds], waits⟩

/-- A load whose body goes on is given back. -/
theorem giveBack {later : ModuleLoad}
    (books : Books host mine past ((ref, later.name) :: lent) (Joined held later.machine.awaited?)
      world) (apart : ∀ entry ∈ lent, entry.1 ≠ ref)
    (sound : later.Sound host (world.Idle ((ref, later.name) :: lent)) ref) :
    Books host mine past lent (Joined held (some ref))
      (world.modifyDeferred ref fun deferred => deferred.settle none (.module later)) := by
  have taken : world.Busy ((ref, later.name) :: lent) ref later.name := Or.inl List.mem_cons_self
  have known := books.known ref _ taken
  have untold := books.untold ref _ taken
  have away : (world.deferred ref).load? = none := books.away _ List.mem_cons_self
  have settled := untold.settle_none (.module later)
  have loads (other : DeferredRef) :
      ((world.modifyDeferred ref fun deferred =>
        deferred.settle none (.module later)).deferred other).load? =
        if other = ref then some later else (world.deferred other).load? := by
    rw [load?_modifyDeferred known, settled]
    rfl
  have still {other : DeferredRef} {stored : ModuleLoad}
      (found : (world.deferred other).load? = some stored) :
      ((world.modifyDeferred ref fun deferred =>
        deferred.settle none (.module later)).deferred other).load? = some stored := by
    rw [loads, if_neg ?_, found]
    rintro rfl
    exact Option.some_ne_none stored (found.symm.trans away)
  have busy (other : DeferredRef) (name : String) :
      (world.modifyDeferred ref fun deferred =>
        deferred.settle none (.module later)).Busy lent other name ↔
        world.Busy ((ref, later.name) :: lent) other name := by
    constructor
    · rintro (member | ⟨stored, found, rfl⟩)
      · exact Or.inl (List.mem_cons_of_mem _ member)
      · rw [loads] at found
        split at found
        · rename_i here
          cases found
          rw [here]
          exact taken
        · exact busy_of_load? found
    · rintro (member | ⟨stored, found, rfl⟩)
      · rcases List.mem_cons.mp member with same | member
        · cases same
          exact Or.inr ⟨later, by rw [loads, if_pos rfl], rfl⟩
        · exact Or.inl member
      · exact busy_of_load? (still found)
  refine books.rebook (.ofModify world ref _) ?_ (books.ledger.congr busy) ?_ ?_ ?_ ?_
  · exact fun other name taken => Or.inl ((busy other name).mp taken)
  · intro other name taken
    have before := books.untold other name ((busy other name).mp taken)
    rw [deferred_modifyDeferred]
    split
    · rw [settled]
      exact ⟨untold.isOpen, untold.woken⟩
    · exact before
  · intro entry member
    rw [loads, if_neg (apart entry member)]
    exact books.away entry (List.mem_cons_of_mem _ member)
  · intro other stored found
    rw [loads] at found
    split at found
    · rename_i here
      cases found
      rw [here]
      exact sound
    · exact books.sound other stored found
  · intro other stored found
    rw [loads] at found
    split at found
    · rename_i here
      exact Or.inl (Or.inr (congrArg some here.symm))
    · rcases books.awaited other stored found with (before | waits) | ⟨outer, above, holds, waits⟩
      · exact Or.inl (Or.inl before)
      · exact Or.inr ⟨ref, later, by rw [loads, if_pos rfl], waits⟩
      · exact Or.inr ⟨outer, above, still holds, waits⟩

/-- A load that is lent out ends, and its name is free. -/
theorem close (books : Books host mine past ((ref, name) :: lent) held world)
    (apart : ∀ entry ∈ lent, entry.1 ≠ ref) {change : Deferred Provider → Deferred Provider}
    (idle : (change (world.deferred ref)).load? = none) :
    Books host mine past lent held
      { world.modifyDeferred ref change with loading := world.loading.filter (· ≠ name) } := by
  have taken : world.Busy ((ref, name) :: lent) ref name := Or.inl List.mem_cons_self
  have known := books.known ref _ taken
  have away : (world.deferred ref).load? = none := books.away _ List.mem_cons_self
  have kindred : Kindred mine world
      { world.modifyDeferred ref change with loading := world.loading.filter (· ≠ name) } :=
    .ofHost rfl (Nat.le_of_eq Array.size_modify.symm)
  have loads (other : DeferredRef) : (({ world.modifyDeferred ref change with
        loading := world.loading.filter (· ≠ name) } : World σ).deferred other).load? =
      (world.deferred other).load? := by
    refine (load?_modifyDeferred known other).trans ?_
    split
    · rename_i here
      rw [idle, here, away]
    · rfl
  have busy (other : DeferredRef) (title : String) :
      ({ world.modifyDeferred ref change with
        loading := world.loading.filter (· ≠ name) } : World σ).Busy lent other title ↔
        world.Busy ((ref, name) :: lent) other title ∧ title ≠ name := by
    rw [busy_congr loads]
    constructor
    · intro before
      have wider : world.Busy ((ref, name) :: lent) other title :=
        before.imp_left (List.mem_cons_of_mem _)
      refine ⟨wider, ?_⟩
      rintro rfl
      have here : other = ref := books.ledger.distinct wider taken
      rcases before with member | ⟨stored, found, rfl⟩
      · exact apart _ member here
      · rw [here] at found
        exact Option.some_ne_none stored (found.symm.trans away)
    · rintro ⟨member | stored, differs⟩
      · rcases List.mem_cons.mp member with same | member
        · cases same
          exact absurd rfl differs
        · exact Or.inl member
      · exact Or.inr stored
  refine books.rebook kindred ?_ (books.ledger.leave busy) ?_ ?_ ?_ ?_
  · exact fun other title still => Or.inl ((busy other title).mp still).1
  · intro other title still
    have elsewhere : other ≠ ref := by
      rcases (busy_congr loads other title).mp still with member | ⟨stored, found, _⟩
      · exact apart _ member
      · rintro rfl
        exact Option.some_ne_none stored (found.symm.trans away)
    have before := books.untold other title ((busy other title).mp still).1
    rw [← deferred_modifyDeferred_of_ne world ref other change elsewhere] at before
    exact before
  · intro entry member
    exact (loads entry.1).trans (books.away entry (List.mem_cons_of_mem _ member))
  · intro other stored found
    exact books.sound other stored ((loads other).symm.trans found)
  · intro other stored found
    refine (books.awaited other stored ((loads other).symm.trans found)).imp_right ?_
    rintro ⟨outer, above, holds, waits⟩
    exact ⟨outer, above, (loads outer).trans holds, waits⟩

/-- What the body of a free name has left behind is remembered. -/
theorem remember (books : Books host mine past lent held world) {value : Value}
    (unloaded : name ∉ world.loading) (uncached : world.modules.lookup name = none)
    (left : host.Leaves name value) :
    Books host mine past lent held { world with modules := putNamed world.modules name value } :=
  books.rebook (.ofHost rfl (Nat.le_refl _)) (fun _ _ busy => Or.inl busy)
    (books.ledger.remember unloaded uncached left) books.untold books.away books.sound books.awaited

/-- The body of a load that is lent out has ended. -/
theorem finish (books : Books host mine past ((ref, load.name) :: lent) held world)
    (apart : ∀ entry ∈ lent, entry.1 ≠ ref) {error : Option ScriptError}
    (left : error = none →
      host.Leaves load.name ((world.heap.getLocal? load.scope load.name).getD .null)) :
    Books host mine past lent held
      ((Library.finishModule load error world).2.modifyDeferred ref fun deferred =>
        deferred.resolve (Library.finishModule load error world).1) := by
  have taken : world.Busy ((ref, load.name) :: lent) ref load.name := Or.inl List.mem_cons_self
  have listed : load.name ∈ world.loading := books.ledger.listed.mpr ⟨ref, taken⟩
  have idle (delivery : Delivery) : ((world.deferred ref).resolve delivery).load? = none := by
    unfold Deferred.resolve
    rw [if_pos (books.untold ref _ taken).isOpen]
    rfl
  have closed (delivery : Delivery) : Books host mine past lent held
      { world.modifyDeferred ref fun deferred => deferred.resolve delivery with
        loading := world.loading.filter (· ≠ load.name) } :=
    books.close apart (idle delivery)
  unfold Library.finishModule
  dsimp only
  split
  · exact (closed _).remember (not_mem_filter_ne _ _) (books.ledger.uncached listed) (left rfl)
  · exact closed _
  · exact closed _

end Books

theorem modifyDeferred_modifyDeferred (first second : Deferred Provider → Deferred Provider) :
    (world.modifyDeferred ref first).modifyDeferred ref second =
      world.modifyDeferred ref fun deferred => second (first deferred) := by
  unfold modifyDeferred
  congr 1
  refine Array.ext_getElem? fun index => ?_
  simp only [Array.getElem?_modify]
  split
  · rw [Option.map_map]
    rfl
  · rfl

/-- The world once the load of a name has been given up. -/
def givenUp (world : World σ) (ref : DeferredRef) (name : String) : World σ :=
  { world.modifyDeferred ref .cancel with loading := world.loading.filter (· ≠ name) }

theorem load?_givenUp (running : (world.deferred ref).load? = some load) (other : DeferredRef) :
    ((world.givenUp ref name).deferred other).load? =
      if other = ref then none else (world.deferred other).load? :=
  load?_modifyDeferred (lt_size_of_load? running) other

namespace Books

/-- A load that somebody waited for is given up; what its body waits for is still held. -/
theorem giveUp (books : Books host mine past lent (Joined held (some ref)) world)
    (running : (world.deferred ref).load? = some load) :
    Books host mine past lent (Joined held load.machine.awaited?)
      (world.givenUp ref load.name) := by
  have closed : Books host mine past lent (Joined held load.machine.awaited?)
      { (world.modifyDeferred ref .lend).modifyDeferred ref .cancel with
        loading := world.loading.filter (· ≠ load.name) } :=
    (books.lend running).close (books.fresh running) rfl
  rw [modifyDeferred_modifyDeferred] at closed
  exact closed

/-- A result that no load stands behind need not be held. -/
theorem drop (books : Books host mine past lent (Joined held (some ref)) world)
    (idle : (world.deferred ref).load? = none) : Books host mine past lent held world := by
  refine books.hold fun other load running holds => holds.resolve_right ?_
  rintro ⟨⟩
  exact Option.some_ne_none load (running.symm.trans idle)

end Books

/-- The name of a module may be freed before or after what its body waits for is given up. -/
theorem cancelWithin_filter (fuel : Nat) (ref : DeferredRef) (keep : String → Bool)
    (world : World σ) :
    { cancelWithin fuel ref world with
        loading := (cancelWithin fuel ref world).loading.filter keep } =
      cancelWithin fuel ref { world with loading := world.loading.filter keep } := by
  induction fuel generalizing ref world with
  | zero => rfl
  | succ fuel ih =>
      unfold cancelWithin
      dsimp only
      have same : ({ world with loading := world.loading.filter keep } : World σ).deferred ref =
          world.deferred ref := rfl
      rw [same]
      split
      · rename_i load _
        have swap (names : List String) :
            (names.filter (· ≠ load.name)).filter keep =
              (names.filter keep).filter (· ≠ load.name) := by
          rw [List.filter_filter, List.filter_filter]
          exact List.filter_congr fun title _ => Bool.and_comm _ _
        cases load.machine.wait? with
        | none =>
            dsimp only
            rw [swap]
            rfl
        | some wait =>
            have rest := ih wait.deferred (world.modifyDeferred ref .cancel)
            have moved : { world with loading := world.loading.filter keep }.modifyDeferred ref
                  .cancel =
                { world.modifyDeferred ref .cancel with
                  loading := (world.modifyDeferred ref .cancel).loading.filter keep } := rfl
            dsimp only
            rw [swap, moved, ← rest]
      · rfl

theorem Books.cancel_idle (books : Books host mine past [] (Joined held (some ref)) world)
    (idle : (world.deferred ref).load? = none) :
    Books host mine past [] held (world.modifyDeferred ref .cancel) := by
  refine (books.drop idle).modify idle.symm fun name busy => ?_
  rcases busy with member | ⟨load, running, _⟩
  · exact absurd member List.not_mem_nil
  · exact absurd (running.symm.trans idle) (Option.some_ne_none load)

theorem source_of_load? (running : (world.deferred ref).load? = some load) :
    (world.deferred ref).source = some (.module load) := by
  unfold Deferred.load? at running
  split at running
  · rename_i source
    rw [source, Option.some.inj running]
  · exact absurd running.symm (Option.some_ne_none load)

theorem cancelWithin_of_idle (idle : (world.deferred ref).load? = none) (fuel : Nat) :
    cancelWithin fuel ref world = world.modifyDeferred ref .cancel := by
  cases fuel with
  | zero => rfl
  | succ fuel =>
      unfold cancelWithin
      dsimp only
      split
      · rename_i source
        rw [Deferred.load?, source] at idle
        exact absurd idle (Option.some_ne_none _)
      · rfl

theorem cancelWithin_of_rests (running : (world.deferred ref).load? = some load)
    (rests : load.machine.wait? = none) (fuel : Nat) :
    cancelWithin (fuel + 1) ref world = world.givenUp ref load.name := by
  simp only [cancelWithin, source_of_load? running, rests]
  rfl

/-- Giving up a load gives up what its body waits for next. -/
theorem cancelWithin_of_waits (running : (world.deferred ref).load? = some load) {wait : Wait}
    (waiting : load.machine.wait? = some wait) (fuel : Nat) :
    cancelWithin (fuel + 1) ref world =
      cancelWithin fuel wait.deferred (world.givenUp ref load.name) := by
  refine .trans ?_ (cancelWithin_filter fuel wait.deferred (· ≠ load.name)
    (world.modifyDeferred ref .cancel))
  simp only [cancelWithin, source_of_load? running, waiting]

namespace Books

/-- Giving up a result gives up the whole chain of loads behind it. A body waits for results that
were begun later, so the chain is no longer than the number of results from there on. -/
theorem cancelWithin (fuel : Nat)
    (books : Books host mine past [] (Joined held (some ref)) world)
    (enough : ∀ load, (world.deferred ref).load? = some load →
      world.deferreds.size ≤ ref.index + fuel) :
    Books host mine past [] held (cancelWithin fuel ref world) := by
  induction fuel generalizing ref world with
  | zero =>
      cases found : (world.deferred ref).load? with
      | none => exact books.cancel_idle found
      | some load =>
          exact absurd (lt_size_of_load? found) (Nat.not_lt_of_le (enough load found))
  | succ fuel ih =>
      cases found : (world.deferred ref).load? with
      | none =>
          rw [cancelWithin_of_idle found]
          exact books.cancel_idle found
      | some load =>
          have given := books.giveUp found
          rw [Machine.awaited?] at given
          cases waiting : load.machine.wait? with
          | none =>
              rw [cancelWithin_of_rests found waiting]
              rw [waiting] at given
              exact given.hold fun _ _ _ holds => holds.resolve_right (Option.some_ne_none _).symm
          | some wait =>
              rw [cancelWithin_of_waits found waiting]
              rw [waiting] at given
              refine ih given fun inner running => ?_
              rw [load?_givenUp found] at running
              split at running
              · exact absurd running.symm (Option.some_ne_none inner)
              have later : ref.index < wait.deferred.index :=
                books.onward found (Machine.awaited?_of_wait? waiting) running
              have room := enough load found
              have size : (world.givenUp ref load.name).deferreds.size = world.deferreds.size :=
                Array.size_modify
              omega

end Books

end World

end MiniScript
