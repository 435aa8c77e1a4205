import MiniScript.Proofs.Machine.Waits

/-!
# The books of the modules

Every deferred result that a module is to deliver stands for one name. The names
that are marked as loading are exactly those of the loads, no two loads have the
same name, and a name that is remembered is not loading. A load that is being
polled has been lent out: its deferred result is without a source for that time,
but its name is still taken. Each load is waited for by a machine or by the body of
an older load. The host looks after handles of its own and starts no modules.
-/

namespace MiniScript

theorem not_mem_filter_ne (name : String) (names : List String) :
    name ∉ names.filter (· ≠ name) := by
  rw [List.mem_filter, decide_eq_true_eq]
  exact fun still => still.2 rfl

theorem lookup_putNamed_of_ne {name other : String} (apart : other ≠ name)
    (entries : List (String × Value)) (value : Value) :
    (putNamed entries name value).lookup other = entries.lookup other := by
  have differs : (other == name) = false := beq_eq_false_iff_ne.mpr apart
  induction entries with
  | nil => simp only [putNamed, List.lookup_cons, differs, List.lookup_nil]
  | cons entry rest ih =>
      obtain ⟨known, old⟩ := entry
      unfold putNamed
      split
      · rename_i same
        subst same
        simp only [List.lookup_cons, differs]
      · simp only [List.lookup_cons, ih]

/-- The names that are loading and those that are remembered agree with the loads. What is
remembered has been left behind by a body, and nothing of the past is forgotten. -/
structure Ledger (leaves past : String → Value → Prop) (busy : DeferredRef → String → Prop)
    (names : List String) (modules : List (String × Value)) : Prop where
  distinct : ∀ {ref other name}, busy ref name → busy other name → ref = other
  listed : ∀ {name}, name ∈ names ↔ ∃ ref, busy ref name
  uncached : ∀ {name}, name ∈ names → modules.lookup name = none
  cached : ∀ {name value}, modules.lookup name = some value → leaves name value
  kept : ∀ {name value}, past name value → modules.lookup name = some value

namespace Ledger

variable {leaves past : String → Value → Prop} {busy after : DeferredRef → String → Prop}
variable {names : List String} {modules : List (String × Value)} {name : String}

theorem congr (ledger : Ledger leaves past busy names modules)
    (same : ∀ ref name, after ref name ↔ busy ref name) :
    Ledger leaves past after names modules where
  distinct first second := ledger.distinct ((same _ _).mp first) ((same _ _).mp second)
  listed := ledger.listed.trans (exists_congr fun ref => (same ref _).symm)
  uncached := ledger.uncached
  cached := ledger.cached
  kept := ledger.kept

/-- A load begins under a name that is neither loading nor remembered. -/
theorem enter (ledger : Ledger leaves past busy names modules) {ref : DeferredRef}
    (unloaded : name ∉ names) (uncached : modules.lookup name = none)
    (grown : ∀ other title, after other title ↔ busy other title ∨ other = ref ∧ title = name) :
    Ledger leaves past after (name :: names) modules where
  distinct {first second title} one two := by
    rcases (grown first title).mp one with one | ⟨rfl, rfl⟩
    · rcases (grown second title).mp two with two | ⟨rfl, rfl⟩
      · exact ledger.distinct one two
      · exact absurd (ledger.listed.mpr ⟨first, one⟩) unloaded
    · rcases (grown second title).mp two with two | ⟨rfl, _⟩
      · exact absurd (ledger.listed.mpr ⟨second, two⟩) unloaded
      · rfl
  listed {title} := by
    constructor
    · intro member
      rcases List.mem_cons.mp member with rfl | old
      · exact ⟨ref, (grown ref title).mpr (Or.inr ⟨rfl, rfl⟩)⟩
      · obtain ⟨other, known⟩ := ledger.listed.mp old
        exact ⟨other, (grown other title).mpr (Or.inl known)⟩
    · rintro ⟨other, known⟩
      rcases (grown other title).mp known with old | ⟨_, rfl⟩
      · exact List.mem_cons_of_mem _ (ledger.listed.mpr ⟨other, old⟩)
      · exact List.mem_cons_self
  uncached {title} member := by
    rcases List.mem_cons.mp member with rfl | old
    · exact uncached
    · exact ledger.uncached old
  cached := ledger.cached
  kept := ledger.kept

/-- The load of a name ends. -/
theorem leave (ledger : Ledger leaves past busy names modules)
    (shrunk : ∀ ref title, after ref title ↔ busy ref title ∧ title ≠ name) :
    Ledger leaves past after (names.filter (· ≠ name)) modules where
  distinct first second :=
    ledger.distinct ((shrunk _ _).mp first).1 ((shrunk _ _).mp second).1
  listed {title} := by
    rw [List.mem_filter, decide_eq_true_eq, ledger.listed]
    constructor
    · rintro ⟨⟨ref, known⟩, apart⟩
      exact ⟨ref, (shrunk ref title).mpr ⟨known, apart⟩⟩
    · rintro ⟨ref, known⟩
      obtain ⟨known, apart⟩ := (shrunk ref title).mp known
      exact ⟨⟨ref, known⟩, apart⟩
  uncached member := ledger.uncached (List.mem_filter.mp member).1
  cached := ledger.cached
  kept := ledger.kept

/-- What a body has left behind is remembered. -/
theorem remember (ledger : Ledger leaves past busy names modules) {value : Value}
    (unloaded : name ∉ names) (uncached : modules.lookup name = none) (left : leaves name value) :
    Ledger leaves past busy names (putNamed modules name value) where
  distinct := ledger.distinct
  listed := ledger.listed
  uncached {title} member := by
    have apart : title ≠ name := fun same => unloaded (same ▸ member)
    rw [lookup_putNamed_of_ne apart]
    exact ledger.uncached member
  cached {title other} found := by
    by_cases same : title = name
    · subst same
      rw [lookup_putNamed] at found
      exact Option.some.inj found ▸ left
    · rw [lookup_putNamed_of_ne same] at found
      exact ledger.cached found
  kept {title other} known := by
    have old := ledger.kept known
    have apart : title ≠ name := by
      rintro rfl
      exact Option.some_ne_none other (old.symm.trans uncached)
    rw [lookup_putNamed_of_ne apart]
    exact old

end Ledger

/-- The body of a module that is to deliver the result. -/
def Deferred.load? (deferred : Deferred Provider) : Option ModuleLoad :=
  match deferred.source with
  | some (.module load) => some load
  | _ => none

/-- A result can still come, and nobody has been told of one. -/
structure Deferred.Untold (deferred : Deferred Provider) : Prop where
  isOpen : deferred.isOpen = true
  woken : deferred.woken = []

/-- The deferred result that a machine waits for. -/
def Machine.awaited? (machine : Machine) : Option DeferredRef :=
  machine.wait?.map (·.deferred)

theorem Machine.awaited?_of_wait? {machine : Machine} {wait : Wait}
    (waiting : machine.wait? = some wait) : machine.awaited? = some wait.deferred := by
  rw [awaited?, waiting]
  rfl

section

variable {σ : Type}

/-- A body that was started from what the loader answered and has been run in bursts since. -/
inductive ModuleLoad.Ran (host : Host σ) : ModuleLoad → Prop where
  | start {load : String → World σ → Except String (Option (List Stmt)) × World σ} {name : String}
      {stmts : List Stmt} {world loaded : World σ} {code : Code} {functions : Array Definition}
      (loads : host.load? = some load) (answered : load name world = (.ok (some stmts), loaded))
      (compiled : Compiler.compileModule (some name) name stmts loaded.heap.functions =
        .ok (code, functions)) (scope : ScopeRef) :
      Ran host { name, scope, machine := .start code scope }
  | burst {load : ModuleLoad} (before : Ran host load) (level budget : Nat) (world : World σ) :
      Ran host { load with
        machine :=
          (load.machine.runCycles host (World.pollWithin host level) budget world).machine }

theorem ModuleLoad.Ran.coherent {load : ModuleLoad} (ran : load.Ran host) :
    load.machine.Coherent := by
  induction ran with
  | start loads answered compiled scope => exact Machine.start_coherent _ scope
  | burst before level budget world ih => exact Machine.runCycles_coherent _ budget ih world

/-- A body of that name has run to its end without an error and has left the value behind. -/
def Host.Leaves (host : Host σ) (name : String) (value : Value) : Prop :=
  ∃ (load : ModuleLoad) (level budget : Nat) (world : World σ), load.Ran host ∧ load.name = name ∧
    let turn := load.machine.runCycles host (World.pollWithin host level) budget world
    turn.machine.status = .finished ∧ turn.error = none ∧
      value = (turn.world.heap.getLocal? load.scope name).getD .null

/-- What the host may do when it is asked: it starts and ends no module, gets hold only of handles
that it makes, and changes only handles that it holds. -/
structure World.Custody (mine : σ → DeferredRef → Prop) (before after : World σ) : Prop where
  modules : after.modules = before.modules
  loading : after.loading = before.loading
  size : before.deferreds.size ≤ after.deferreds.size
  owns : ∀ ref, mine after.host ref → mine before.host ref ∨
    before.deferreds.size ≤ ref.index ∧ ref.index < after.deferreds.size
  others : ∀ ref, ref.index < before.deferreds.size → ¬ mine before.host ref →
    after.deferred ref = before.deferred ref
  starts : ∀ ref, (before.deferred ref).load? = none → (after.deferred ref).load? = none

/-- What may happen between two turns of the machines: anything, except to modules and to results
that modules are to deliver. -/
structure World.Outside (mine : σ → DeferredRef → Prop) (before after : World σ) : Prop where
  modules : after.modules = before.modules
  loading : after.loading = before.loading
  size : before.deferreds.size ≤ after.deferreds.size
  owned : ∀ ref, mine after.host ref →
    ref.index < after.deferreds.size ∧ (after.deferred ref).load? = none
  others : ∀ ref load, (before.deferred ref).load? = some load →
    after.deferred ref = before.deferred ref
  starts : ∀ ref, (before.deferred ref).load? = none → (after.deferred ref).load? = none

/-- The natives of the host promise only results that the host holds or has just made. -/
def Host.HandsOwn (host : Host σ) (mine : σ → DeferredRef → Prop) : Prop :=
  ∀ id call world ref yields after, host.call id call world = (.ok ⟨.pending ref, yields⟩, after) →
    mine world.host ref ∨
      world.deferreds.size ≤ ref.index ∧ ref.index < after.deferreds.size

namespace World

/-- The name is taken by the load behind a deferred result, which may be lent out. -/
def Busy (lent : List (DeferredRef × String)) (world : World σ) (ref : DeferredRef)
    (name : String) : Prop :=
  (ref, name) ∈ lent ∨ ∃ load, (world.deferred ref).load? = some load ∧ load.name = name

/-- No load stands behind a deferred result, and none ever will. -/
structure Idle (lent : List (DeferredRef × String)) (world : World σ) (ref : DeferredRef) :
    Prop where
  known : ref.index < world.deferreds.size
  free : ∀ name, ¬ world.Busy lent ref name

end World

/-- What holds of a load behind the deferred result `ref`: its body has not ended, and waits for a
result that was begun later or that no load stands behind. -/
structure ModuleLoad.Sound (host : Host σ) (idle : DeferredRef → Prop) (ref : DeferredRef)
    (load : ModuleLoad) : Prop where
  ran : load.Ran host
  unfinished : load.machine.status ≠ .finished
  onward : ∀ other, load.machine.awaited? = some other → idle other ∨ ref.index < other.index

/-- The books of the modules while the loads in `lent` are being polled and machines wait for the
results in `held`. -/
structure World.Books (host : Host σ) (mine : σ → DeferredRef → Prop) (past : String → Value → Prop)
    (lent : List (DeferredRef × String)) (held : DeferredRef → Prop) (world : World σ) : Prop where
  ledger : Ledger host.Leaves past (world.Busy lent) world.loading world.modules
  untold : ∀ ref name, world.Busy lent ref name → (world.deferred ref).Untold
  foreign : ∀ ref name, world.Busy lent ref name → ¬ mine world.host ref
  known : ∀ ref name, world.Busy lent ref name → ref.index < world.deferreds.size
  away : ∀ entry ∈ lent, (world.deferred entry.1).load? = none
  sound : ∀ ref load, (world.deferred ref).load? = some load →
    load.Sound host (world.Idle lent) ref
  awaited : ∀ ref load, (world.deferred ref).load? = some load → held ref ∨
    ∃ outer other, (world.deferred outer).load? = some other ∧
      other.machine.awaited? = some ref
  owned : ∀ ref, mine world.host ref → ref.index < world.deferreds.size

end

/-- The results that machines wait for, with one more. -/
def Joined (held : DeferredRef → Prop) (extra : Option DeferredRef) (ref : DeferredRef) : Prop :=
  held ref ∨ extra = some ref

namespace Deferred

variable {deferred other : Deferred Provider}

theorem load?_of_source (same : other.source = deferred.source) : other.load? = deferred.load? := by
  rw [load?, load?, same]

theorem load?_eq_none (foreign : ∀ load, deferred.source = some (.module load) → False) :
    deferred.load? = none := by
  unfold load?
  split
  · rename_i load source
    exact (foreign load source).elim
  · rfl

theorem load?_onReady (waiter : Nat) : (deferred.onReady waiter).load? = deferred.load? := by
  refine load?_of_source ?_
  unfold onReady
  split
  · rfl
  · split
    · rfl
    · rfl

theorem Untold.onReady (untold : deferred.Untold) (waiter : Nat) :
    (deferred.onReady waiter).Untold := by
  have isOpen := untold.isOpen
  rw [Deferred.isOpen, Bool.and_eq_true, Bool.not_eq_true', Bool.not_eq_true'] at isOpen
  rw [Deferred.onReady, if_neg (Bool.eq_false_iff.mp isOpen.2),
    if_neg (Bool.eq_false_iff.mp isOpen.1)]
  exact ⟨untold.isOpen, untold.woken⟩

theorem Untold.take (untold : deferred.Untold) : deferred.take.Untold :=
  ⟨untold.isOpen, untold.woken⟩

theorem Untold.lend (untold : deferred.Untold) : deferred.lend.Untold :=
  ⟨untold.isOpen, untold.woken⟩

/-- A source that has nothing to deliver yet is put back. -/
theorem Untold.settle_none (untold : deferred.Untold) (source : Provider) :
    deferred.settle none source = { deferred with source := some source } := by
  rw [settle, untold.isOpen]
  rfl

end Deferred

namespace World

variable {σ : Type} {host : Host σ} {mine : σ → DeferredRef → Prop}
variable {past : String → Value → Prop} {lent : List (DeferredRef × String)}
variable {held other : DeferredRef → Prop} {world after : World σ} {ref : DeferredRef}

theorem deferred_modifyDeferred (change : Deferred Provider → Deferred Provider)
    (other : DeferredRef) :
    (world.modifyDeferred ref change).deferred other =
      if other = ref ∧ ref.index < world.deferreds.size then change (world.deferred ref)
      else world.deferred other := by
  split
  · rename_i here
    obtain ⟨rfl, known⟩ := here
    exact deferred_modifyDeferred_self world other change known
  · rename_i elsewhere
    by_cases same : other = ref
    · subst same
      have unknown : world.deferreds.size ≤ other.index :=
        Nat.le_of_not_lt fun known => elsewhere ⟨rfl, known⟩
      rw [deferred_of_size_le unknown, deferred_of_size_le]
      exact Nat.le_trans (Nat.le_of_eq Array.size_modify) unknown
    · exact deferred_modifyDeferred_of_ne world ref other change same

theorem lt_size_of_load? {load : ModuleLoad} (loads : (world.deferred ref).load? = some load) :
    ref.index < world.deferreds.size := by
  refine Nat.lt_of_not_le fun unknown => Option.some_ne_none load ?_
  rw [← loads, deferred_of_size_le unknown]
  rfl

theorem load?_addDeferred {source : Option Provider}
    (foreign : ({ source } : Deferred Provider).load? = none) (ref : DeferredRef) :
    ((world.addDeferred source).deferred ref).load? = (world.deferred ref).load? := by
  rcases Nat.lt_or_ge ref.index world.deferreds.size with known | unknown
  · rw [deferred_addDeferred_of_lt source known]
  · rw [deferred_of_size_le unknown]
    rcases Nat.eq_or_lt_of_le unknown with same | beyond
    · have last : ref = world.nextDeferred := by
        cases ref
        exact congrArg _ same.symm
      rw [last, deferred_nextDeferred]
      exact foreign
    · rw [deferred_of_size_le]
      rw [addDeferred, Array.size_push]
      exact beyond

theorem busy_congr (loads : ∀ ref, (after.deferred ref).load? = (world.deferred ref).load?)
    (ref : DeferredRef) (name : String) :
    after.Busy lent ref name ↔ world.Busy lent ref name := by
  unfold Busy
  rw [loads ref]

/-- No deferred result is lost, and the host has got hold of no older one. -/
structure Kindred (mine : σ → DeferredRef → Prop) (before after : World σ) : Prop where
  size : before.deferreds.size ≤ after.deferreds.size
  hands : ∀ ref, ref.index < before.deferreds.size → mine after.host ref → mine before.host ref
  owned : (∀ ref, mine before.host ref → ref.index < before.deferreds.size) →
    ∀ ref, mine after.host ref → ref.index < after.deferreds.size

theorem Kindred.ofHost (host : after.host = world.host)
    (size : world.deferreds.size ≤ after.deferreds.size) : Kindred mine world after where
  size := size
  hands _ _ owns := host ▸ owns
  owned known ref owns := Nat.lt_of_lt_of_le (known ref (host ▸ owns)) size

theorem Kindred.ofModify (world : World σ) (ref : DeferredRef)
    (change : Deferred Provider → Deferred Provider) :
    Kindred mine world (world.modifyDeferred ref change) :=
  .ofHost rfl (Nat.le_of_eq Array.size_modify.symm)

theorem Kindred.ofCustody (custody : Custody mine world after) : Kindred mine world after where
  size := custody.size
  hands ref known owns :=
    (custody.owns ref owns).resolve_right fun new => absurd known (Nat.not_lt_of_le new.1)
  owned known ref owns := by
    rcases custody.owns ref owns with old | new
    · exact Nat.lt_of_lt_of_le (known ref old) custody.size
    · exact new.2

theorem Idle.congr (idle : world.Idle lent ref)
    (size : world.deferreds.size ≤ after.deferreds.size)
    (loads : ∀ ref, (after.deferred ref).load? = (world.deferred ref).load?) :
    after.Idle lent ref where
  known := Nat.lt_of_lt_of_le idle.known size
  free name busy := idle.free name ((busy_congr loads ref name).mp busy)

/-- A load that was not there before stands behind a new result, which is none of the host's. -/
def Grows (mine : σ → DeferredRef → Prop) (lent later : List (DeferredRef × String))
    (before after : World σ) : Prop :=
  ∀ ref name, after.Busy later ref name → before.Busy lent ref name ∨
    before.deferreds.size ≤ ref.index ∧ ref.index < after.deferreds.size ∧
      ¬ mine after.host ref

theorem Idle.later {later : List (DeferredRef × String)} (idle : world.Idle lent ref)
    (size : world.deferreds.size ≤ after.deferreds.size)
    (grows : Grows mine lent later world after) : after.Idle later ref where
  known := Nat.lt_of_lt_of_le idle.known size
  free name busy := by
    rcases grows ref name busy with before | ⟨new, _⟩
    · exact idle.free name before
    · exact Nat.lt_irrefl _ (Nat.lt_of_lt_of_le idle.known new)

namespace Books

/-- The books of a later world: of its loads, their results and those who wait for them. The host
has nothing to do with a load as long as it has got hold of no older result. -/
theorem rebook {later : List (DeferredRef × String)} (books : Books host mine past lent held world)
    (kindred : Kindred mine world after) (grows : Grows mine lent later world after)
    (ledger : Ledger host.Leaves past (after.Busy later) after.loading after.modules)
    (untold : ∀ ref name, after.Busy later ref name → (after.deferred ref).Untold)
    (away : ∀ entry ∈ later, (after.deferred entry.1).load? = none)
    (sound : ∀ ref load, (after.deferred ref).load? = some load →
      load.Sound host (world.Idle lent) ref)
    (awaited : ∀ ref load, (after.deferred ref).load? = some load → other ref ∨
      ∃ outer above, (after.deferred outer).load? = some above ∧
        above.machine.awaited? = some ref) :
    Books host mine past later other after where
  ledger := ledger
  untold := untold
  foreign ref name busy owns := by
    rcases grows ref name busy with before | ⟨_, _, unowned⟩
    · exact books.foreign ref name before
        (kindred.hands ref (books.known ref name before) owns)
    · exact unowned owns
  known ref name busy := by
    rcases grows ref name busy with before | ⟨_, known, _⟩
    · exact Nat.lt_of_lt_of_le (books.known ref name before) kindred.size
    · exact known
  away := away
  sound ref load running := by
    have before := sound ref load running
    refine ⟨before.ran, before.unfinished, fun other waits => ?_⟩
    exact (before.onward other waits).imp_left fun idle => idle.later kindred.size grows
  awaited := awaited
  owned := kindred.owned books.owned

/-- The books stay as they are when no load changes. -/
theorem transfer (books : Books host mine past lent held world)
    (kindred : Kindred mine world after) (modules : after.modules = world.modules)
    (loading : after.loading = world.loading)
    (loads : ∀ ref, (after.deferred ref).load? = (world.deferred ref).load?)
    (untold : ∀ ref name, world.Busy lent ref name → (after.deferred ref).Untold) :
    Books host mine past lent held after := by
  refine books.rebook kindred ?_ ?_ ?_ ?_ ?_ ?_
  · exact fun ref name busy => Or.inl ((busy_congr loads ref name).mp busy)
  · rw [modules, loading]
    exact books.ledger.congr (busy_congr loads)
  · exact fun ref name busy => untold ref name ((busy_congr loads ref name).mp busy)
  · exact fun entry member => (loads entry.1).trans (books.away entry member)
  · exact fun ref load running => books.sound ref load ((loads ref).symm.trans running)
  · intro ref load running
    refine (books.awaited ref load ((loads ref).symm.trans running)).imp_right ?_
    rintro ⟨outer, above, holds, waits⟩
    exact ⟨outer, above, (loads outer).trans holds, waits⟩

/-- Only the results of loads need to be held. -/
theorem hold (books : Books host mine past lent held world)
    (holds : ∀ ref load, (world.deferred ref).load? = some load → held ref → other ref) :
    Books host mine past lent other world :=
  { books with
    awaited := fun ref load running =>
      (books.awaited ref load running).imp_left (holds ref load running) }

theorem quiet (books : Books host mine past lent held world) (quiet : Quiet world after) :
    Books host mine past lent held after := by
  have size : world.deferreds.size ≤ after.deferreds.size :=
    Nat.le_of_eq (congrArg Array.size quiet.deferreds.symm)
  refine books.transfer (.ofHost quiet.host size) quiet.modules quiet.loading ?_ ?_
  · intro ref
    rw [quiet.deferred]
  · intro ref name busy
    rw [quiet.deferred]
    exact books.untold ref name busy

/-- A change of a deferred result that no load depends on. -/
theorem modify (books : Books host mine past lent held world)
    {change : Deferred Provider → Deferred Provider}
    (loads : (change (world.deferred ref)).load? = (world.deferred ref).load?)
    (untold : ∀ name, world.Busy lent ref name → (change (world.deferred ref)).Untold) :
    Books host mine past lent held (world.modifyDeferred ref change) := by
  refine books.transfer (.ofModify world ref change) rfl rfl ?_ ?_
  · intro other
    rw [deferred_modifyDeferred]
    split
    · rename_i here
      rw [here.1, loads]
    · rfl
  · intro other name busy
    rw [deferred_modifyDeferred]
    split
    · rename_i here
      exact untold name (here.1 ▸ busy)
    · exact books.untold other name busy

/-- The host neither starts nor ends a load. -/
theorem load?_custody (books : Books host mine past lent held world)
    (custody : Custody mine world after) (ref : DeferredRef) :
    (after.deferred ref).load? = (world.deferred ref).load? := by
  cases found : (world.deferred ref).load? with
  | none => exact custody.starts ref found
  | some load =>
      have busy : world.Busy lent ref load.name := Or.inr ⟨load, found, rfl⟩
      rw [custody.others ref (books.known ref _ busy) (books.foreign ref _ busy), found]

theorem custody (books : Books host mine past lent held world)
    (custody : Custody mine world after) : Books host mine past lent held after := by
  refine books.transfer (.ofCustody custody) custody.modules custody.loading
    (books.load?_custody custody) ?_
  intro ref name busy
  rw [custody.others ref (books.known ref name busy) (books.foreign ref name busy)]
  exact books.untold ref name busy

/-- While no load is lent out, the host may even get hold of results that no load stands behind. -/
theorem outside (books : Books host mine past [] held world) (outside : Outside mine world after) :
    Books host mine past [] held after := by
  have loads (ref : DeferredRef) : (after.deferred ref).load? = (world.deferred ref).load? := by
    cases found : (world.deferred ref).load? with
    | none => exact outside.starts ref found
    | some load => rw [outside.others ref load found, found]
  have ours : Books host (fun _ _ => False) past [] held world :=
    { books with
      foreign := fun _ _ _ => id
      owned := fun _ => False.elim }
  have kindred : Kindred (fun _ _ => False) world after :=
    ⟨outside.size, fun _ _ => id, fun _ _ => False.elim⟩
  have moved : Books host (fun _ _ => False) past [] held after := by
    refine ours.transfer kindred outside.modules outside.loading loads fun ref name busy => ?_
    rcases busy with member | ⟨load, running, named⟩
    · exact absurd member List.not_mem_nil
    · rw [outside.others ref load running]
      exact books.untold ref name (Or.inr ⟨load, running, named⟩)
  refine { moved with foreign := ?_, owned := fun ref owns => (outside.owned ref owns).1 }
  rintro ref name (member | ⟨load, running, _⟩) owns
  · exact absurd member List.not_mem_nil
  · exact Option.some_ne_none load (running.symm.trans (outside.owned ref owns).2)

/-- A new deferred result that no module delivers. -/
theorem defer (books : Books host mine past lent held world) {source : Option Provider}
    (foreign : ({ source } : Deferred Provider).load? = none) :
    Books host mine past lent held (world.addDeferred source) := by
  have size : world.deferreds.size ≤ (world.addDeferred source).deferreds.size := by
    rw [addDeferred, Array.size_push]
    exact Nat.le_succ _
  refine books.transfer (.ofHost rfl size) rfl rfl (load?_addDeferred foreign) ?_
  intro ref name busy
  rw [deferred_addDeferred_of_lt source (books.known ref name busy)]
  exact books.untold ref name busy

theorem awaiting (books : Books host mine past lent held world) (ref : DeferredRef) :
    Books host mine past lent held (world.awaiting ref) := by
  have told : Books host mine past lent held
      (world.modifyDeferred ref fun deferred => deferred.onReady world.suspensions) :=
    books.modify (Deferred.load?_onReady _) fun name busy => (books.untold ref name busy).onReady _
  exact told.transfer (.ofHost rfl (Nat.le_refl _)) rfl rfl (fun _ => rfl) told.untold

theorem take (books : Books host mine past lent held world) (ref : DeferredRef) :
    Books host mine past lent held (world.modifyDeferred ref .take) :=
  books.modify rfl fun name busy => (books.untold ref name busy).take

end Books

end World

end MiniScript
