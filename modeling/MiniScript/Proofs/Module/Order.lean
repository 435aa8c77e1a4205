import MiniScript.Proofs.Machine.Run
import MiniScript.Proofs.Module.Loading

/-!
# Machines keep the books of the modules

Whatever a machine is asked, the names of the modules stay in order. The proof
follows the machine: an instruction may start a load, a look at a load runs its
body for a burst with the load lent out, and a machine that is ended gives up the
chain of loads that it waits for. Behind what a body that runs waits for there is
no load, or one that was begun after all loads that are lent out, so none of these
is touched meanwhile.
-/

namespace MiniScript

namespace Deferred

variable {deferred : Deferred Provider} {provider : Provider}

theorem pollable?_eq_some (pollable : deferred.pollable? = some provider) :
    deferred.isOpen = true ∧ deferred.source = some provider := by
  unfold pollable? at pollable
  split at pollable
  · rename_i isOpen
    exact ⟨isOpen, pollable⟩
  · exact absurd pollable.symm (Option.some_ne_none provider)

/-- A source that is no module makes no load. -/
theorem load?_settle (idle : deferred.load? = none) (foreign : ∀ load, provider ≠ .module load)
    (answer : Option Delivery) : (deferred.settle answer provider).load? = none := by
  cases answer with
  | some result =>
      unfold settle resolve
      dsimp only
      split
      · rfl
      · exact idle
  | none =>
      unfold settle
      dsimp only
      split
      · refine load?_eq_none fun load source => foreign load (Option.some.inj source)
      · exact idle

end Deferred

namespace World

variable {σ : Type} {host : Host σ} {mine : σ → DeferredRef → Prop}
variable {past : String → Value → Prop} {lent : List (DeferredRef × String)}
variable {held : DeferredRef → Prop} {world after middle : World σ} {ref : DeferredRef}

namespace Books

theorem joined_none (books : Books host mine past lent (Joined held none) world) :
    Books host mine past lent held world :=
  books.hold fun _ _ _ holds => holds.resolve_right (Option.some_ne_none _).symm

theorem join (books : Books host mine past lent held world) (extra : Option DeferredRef) :
    Books host mine past lent (Joined held extra) world :=
  books.hold fun _ _ _ holds => Or.inl holds

theorem asks (lawful : host.Keeps (Custody mine)) (books : Books host mine past lent held world)
    (asks : Asks host world none after) : Books host mine past lent held after := by
  cases asks with
  | nothing quiet => exact books.quiet quiet
  | leave id key value quiet stored =>
      exact ((books.quiet quiet).custody (lawful.intercept id key value _)).quiet stored
  | answer quiet id call => exact (books.quiet quiet).custody (lawful.call id call _)
  | seek quiet loads name => exact (books.quiet quiet).custody (lawful.load _ loads name _)

/-- No load stands behind what is promised to a machine, or one that has just been begun. -/
theorem promised (lawful : host.Keeps (Custody mine)) (hands : host.HandsOwn mine)
    (books : Books host mine past lent held world) (asks : Asks host world (some ref) middle) :
    Books host mine past lent (Joined held (some ref)) middle ∧
      (middle.Idle lent ref ∨ ∀ entry ∈ lent, entry.1.index < ref.index) := by
  cases asks with
  | @promise before _ id call _ _ quiet promised =>
      have custody := lawful.call id call before
      rw [promised] at custody
      have books := books.quiet quiet
      refine ⟨(books.custody custody).join _, ?_⟩
      rcases hands _ _ _ _ _ _ promised with owns | new
      · refine Or.inl ⟨Nat.lt_of_lt_of_le (books.owned ref owns) custody.size, fun name busy => ?_⟩
        rw [busy_congr (books.load?_custody custody)] at busy
        exact books.foreign ref name busy owns
      · refine Or.inr fun entry member => ?_
        exact Nat.lt_of_lt_of_le (books.known entry.1 entry.2 (Or.inl member)) new.1
  | sleep quiet deadline =>
      refine ⟨((books.quiet quiet).defer rfl).join _, Or.inr fun entry member => ?_⟩
      exact (books.quiet quiet).known entry.1 entry.2 (Or.inl member)
  | @start before loaded load name stmts code functions quiet loads uncached unloaded answered
      compiled scope =>
      have custody := lawful.load load loads name before
      rw [answered] at custody
      have books := (books.quiet quiet).custody custody
      refine ⟨?_, Or.inr fun entry member => books.known entry.1 entry.2 (Or.inl member)⟩
      have ran := ModuleLoad.Ran.start loads answered compiled scope
      refine books.start ran rfl ?_ ?_ rfl rfl rfl rfl
      · rw [custody.loading]
        exact unloaded
      · rw [custody.modules]
        exact uncached

end Books

/-- The books while a machine acts: no load stands behind what it waits for, or one that was begun
after all loads that are lent out. -/
structure Orderly (host : Host σ) (mine : σ → DeferredRef → Prop) (past : String → Value → Prop)
    (lent : List (DeferredRef × String)) (held : DeferredRef → Prop) (wait? : Option Wait)
    (world : World σ) : Prop where
  books : Books host mine past lent (Joined held (wait?.map (·.deferred))) world
  above : ∀ wait, wait? = some wait →
    world.Idle lent wait.deferred ∨ ∀ entry ∈ lent, entry.1.index < wait.deferred.index

namespace Orderly

variable {wait : Wait}

theorem ofNone (books : Books host mine past lent held world) :
    Orderly host mine past lent held none world where
  books := books.join none
  above wait waiting := absurd waiting.symm (Option.some_ne_none wait)

/-- What the machine waits for is not lent out. -/
theorem apart (orderly : Orderly host mine past lent held (some wait) world) :
    ∀ entry ∈ lent, entry.1 ≠ wait.deferred := by
  rintro ⟨ref, name⟩ member rfl
  rcases orderly.above wait rfl with idle | above
  · exact idle.free name (Or.inl member)
  · exact Nat.lt_irrefl _ (above _ member)

/-- The load that the machine waits for was begun after all that are lent out. -/
theorem above_of_load? (orderly : Orderly host mine past lent held (some wait) world)
    {load : ModuleLoad} (running : (world.deferred wait.deferred).load? = some load) :
    ∀ entry ∈ lent, entry.1.index < wait.deferred.index :=
  (orderly.above wait rfl).resolve_left fun idle => idle.free _ (Books.busy_of_load? running)

/-- The world moves on, with the same loads. -/
theorem move (orderly : Orderly host mine past lent held (some wait) world)
    (books : Books host mine past lent (Joined held (some wait.deferred)) after)
    (size : world.deferreds.size ≤ after.deferreds.size)
    (loads : ∀ ref, (after.deferred ref).load? = (world.deferred ref).load?) :
    Orderly host mine past lent held (some wait) after where
  books := books
  above other waiting := by
    exact (orderly.above other waiting).imp_left fun idle => idle.congr size loads

/-- A result that no load stands behind may change, as long as none does then. -/
theorem modify (orderly : Orderly host mine past lent held (some wait) world)
    {change : Deferred Provider → Deferred Provider}
    (idle : (world.deferred wait.deferred).load? = none)
    (still : (change (world.deferred wait.deferred)).load? = none) :
    Orderly host mine past lent held (some wait) (world.modifyDeferred wait.deferred change) := by
  refine orderly.move ?_ (Nat.le_of_eq Array.size_modify.symm) fun other => ?_
  · refine orderly.books.modify (still.trans idle.symm) fun name busy => ?_
    rcases busy with member | ⟨load, running, _⟩
    · exact absurd rfl (orderly.apart _ member)
    · exact absurd (running.symm.trans idle) (Option.some_ne_none load)
  · rw [deferred_modifyDeferred]
    split
    · rename_i here
      rw [here.1, still, idle]
    · rfl

theorem custody (orderly : Orderly host mine past lent held (some wait) world)
    (custody : Custody mine world after) :
    Orderly host mine past lent held (some wait) after :=
  orderly.move (orderly.books.custody custody) custody.size (orderly.books.load?_custody custody)

end Orderly

theorem load?_awaiting (ref other : DeferredRef) :
    ((world.awaiting ref).deferred other).load? = (world.deferred other).load? := by
  refine (congrArg Deferred.load? (deferred_modifyDeferred _ other)).trans ?_
  split
  · rename_i here
    rw [Deferred.load?_onReady, here.1]
  · rfl

/-- Every move of a machine keeps the order, if looking for a result does. -/
theorem orderly_waitInvariant (lawful : host.Keeps (Custody mine)) (hands : host.HandsOwn mine)
    {poll : Poller σ}
    (polls : ∀ wait world, Orderly host mine past lent held (some wait) world →
      Orderly host mine past lent held (some wait) (poll wait.deferred world)) :
    WaitInvariant host poll (Orderly host mine past lent held) where
  asks before asks := .ofNone (before.books.joined_none.asks lawful asks)
  waits before asks := by
    obtain ⟨books, above⟩ := before.books.joined_none.promised lawful hands asks
    refine ⟨books.awaiting _, fun wait waiting => ?_⟩
    cases waiting
    refine above.imp_left fun idle => ?_
    exact idle.congr (Nat.le_of_eq Array.size_modify.symm) (load?_awaiting _)
  looks before := polls _ _ before
  takes {world wait} before woken := by
    -- Who has been told of a result does not wait for a load.
    have idle : (world.deferred wait.deferred).load? = none := by
      refine Option.eq_none_iff_forall_ne_some.mpr fun load running => ?_
      have untold := before.books.untold _ _ (Books.busy_of_load? running)
      rw [isWoken, untold.woken] at woken
      exact Bool.noConfusion woken
    exact .ofNone ((before.books.drop idle).take wait.deferred)

theorem load?_lent (ref : DeferredRef) :
    ((world.modifyDeferred ref .lend).deferred ref).load? = none := by
  rw [deferred_modifyDeferred]
  split
  · rfl
  · rename_i unknown
    rw [deferred_of_size_le (Nat.le_of_not_lt fun known => unknown ⟨rfl, known⟩)]
    rfl

/-- The body of a load that is lent out waits for what was begun later still. -/
theorem Orderly.lend {wait : Wait} {load : ModuleLoad}
    (orderly : Orderly host mine past lent held (some wait) world)
    (running : (world.deferred wait.deferred).load? = some load) :
    Orderly host mine past ((wait.deferred, load.name) :: lent) held load.machine.wait?
      (world.modifyDeferred wait.deferred .lend) := by
  refine ⟨orderly.books.lend running, fun inner waiting => ?_⟩
  have sound := orderly.books.sound _ load running
  refine (sound.onward _ (Machine.awaited?_of_wait? waiting)).imp (fun idle => ?_) fun later => ?_
  · refine ⟨Nat.lt_of_lt_of_eq idle.known Array.size_modify.symm, fun name busy => ?_⟩
    exact idle.free name ((Books.busy_lend running _ name).mp busy)
  · intro entry member
    rcases List.mem_cons.mp member with rfl | member
    · exact later
    · exact Nat.lt_trans (orderly.above_of_load? running entry member) later

/-- The world after a look at a load whose body has come to `turn`. -/
def looked (ref : DeferredRef) (load : ModuleLoad) (turn : Turn σ) : World σ :=
  if turn.machine.isFinished then
    (Library.finishModule load turn.error turn.world).2.modifyDeferred ref fun deferred =>
      deferred.resolve (Library.finishModule load turn.error turn.world).1
  else
    turn.world.modifyDeferred ref fun deferred =>
      deferred.settle none (.module { load with machine := turn.machine })

/-- A look at a load runs its body for a burst. -/
theorem pollWithin_load {load : ModuleLoad}
    (pollable : (world.deferred ref).pollable? = some (.module load)) (level : Nat) :
    World.pollWithin host (level + 1) ref world =
      looked ref load (load.machine.runCycles host (World.pollWithin host level)
        world.limits.burstCycles (world.modifyDeferred ref .lend)) := by
  rw [World.pollWithin, pollable]
  rfl

/-- A load comes back from a look, with its body further on or at its end. -/
theorem Orderly.looked {wait : Wait} {load : ModuleLoad} {turn : Turn σ} {level budget : Nat}
    (orderly : Orderly host mine past ((wait.deferred, load.name) :: lent) held turn.machine.wait?
      turn.world) (above : ∀ entry ∈ lent, entry.1.index < wait.deferred.index)
    (ran : load.Ran host)
    (same : turn = load.machine.runCycles host (World.pollWithin host level) budget after) :
    Orderly host mine past lent held (some wait) (looked wait.deferred load turn) := by
  have apart : ∀ entry ∈ lent, entry.1 ≠ wait.deferred := by
    intro entry member here
    exact Nat.lt_irrefl _ (here ▸ above entry member)
  refine ⟨?_, fun other waiting => Or.inr (Option.some.inj waiting ▸ above)⟩
  unfold World.looked
  split
  · rename_i ended
    have finished : turn.machine.status = .finished := of_decide_eq_true ended
    have coherent : turn.machine.Coherent := same ▸ (ran.burst level budget after).coherent
    have books := orderly.books
    rw [coherent.free (finished ▸ nofun)] at books
    refine (books.joined_none.finish apart fun failed => ?_).join _
    subst same
    exact ⟨load, level, budget, after, ran, rfl, finished, failed, rfl⟩
  · rename_i goesOn
    have sound : ModuleLoad.Sound host
        (turn.world.Idle ((wait.deferred, load.name) :: lent)) wait.deferred
        { load with machine := turn.machine } := by
      refine ⟨?_, fun finished => goesOn (decide_eq_true finished), fun other waiting => ?_⟩
      · subst same
        exact ran.burst level budget after
      · obtain ⟨inner, waits, rfl⟩ := Option.map_eq_some_iff.mp waiting
        exact (orderly.above inner waits).imp_right fun all => all _ List.mem_cons_self
    exact Books.giveBack orderly.books apart sound

/-- Looking for a result keeps the order. A load that is looked at is lent out, its body takes the
place of the machine, and what the body waits for is looked at one level deeper. -/
theorem Orderly.pollWithin (lawful : host.Keeps (Custody mine)) (hands : host.HandsOwn mine)
    (level : Nat) {wait : Wait} (orderly : Orderly host mine past lent held (some wait) world) :
    Orderly host mine past lent held (some wait)
      (World.pollWithin host level wait.deferred world) := by
  induction level generalizing lent held wait world with
  | zero => exact orderly
  | succ level ih =>
      cases pollable : (world.deferred wait.deferred).pollable? with
      | none =>
          rw [World.pollWithin, pollable]
          exact orderly
      | some provider =>
          obtain ⟨-, source⟩ := Deferred.pollable?_eq_some pollable
          have lends (idle : (world.deferred wait.deferred).load? = none) :
              Orderly host mine past lent held (some wait)
                (world.modifyDeferred wait.deferred .lend) := orderly.modify idle rfl
          have away : ((world.modifyDeferred wait.deferred .lend).deferred
            wait.deferred).load? = none := load?_lent _
          cases provider with
          | clock deadline =>
              have idle : (world.deferred wait.deferred).load? = none := by
                rw [Deferred.load?, source]
              rw [World.pollWithin, pollable]
              exact (lends idle).modify away
                (Deferred.load?_settle away (fun _ => Provider.noConfusion) _)
          | host id =>
              have idle : (world.deferred wait.deferred).load? = none := by
                rw [Deferred.load?, source]
              have custody := lawful.poll id (world.modifyDeferred wait.deferred .lend)
              have still := ((lends idle).books.load?_custody custody wait.deferred).trans away
              rw [World.pollWithin, pollable]
              exact ((lends idle).custody custody).modify still
                (Deferred.load?_settle still (fun _ => Provider.noConfusion) _)
          | module load =>
              have running : (world.deferred wait.deferred).load? = some load := by
                rw [Deferred.load?, source]
              have began := (orderly.books.sound _ load running).ran
              have ran := (orderly_waitInvariant lawful hands fun _ _ => ih).runCycles
                world.limits.burstCycles (Or.inl began.coherent) (orderly.lend running)
              rw [pollWithin_load pollable]
              exact ran.looked (orderly.above_of_load? running) began rfl

theorem Orderly.ofBooks {machine : Machine}
    (books : Books host mine past [] (Joined held machine.awaited?) world) :
    Orderly host mine past [] held machine.wait? world where
  books := books
  above _ _ := Or.inr fun _ member => absurd member List.not_mem_nil

namespace Books

variable {machine : Machine}

theorem cancel (books : Books host mine past [] (Joined held (some ref)) world) :
    Books host mine past [] held (world.cancel ref) :=
  books.cancelWithin _ fun _ _ => Nat.le_add_left _ _

/-- What a machine waits for is given up. -/
theorem cancelWait (books : Books host mine past [] (Joined held machine.awaited?) world) :
    Books host mine past [] held (world.cancelWait machine) := by
  rw [Machine.awaited?] at books
  unfold World.cancelWait
  split
  · rename_i wait waiting
    rw [waiting] at books
    exact books.cancel
  · rename_i waiting
    rw [waiting] at books
    exact books.joined_none

/-- A machine is thrown away. -/
theorem release (books : Books host mine past [] (Joined held machine.awaited?) world) :
    Books host mine past [] held (world.release machine) := by
  rw [Machine.awaited?] at books
  unfold World.release
  split
  · rename_i waiting
    rw [waiting] at books
    exact books.joined_none
  · rename_i wait waiting
    rw [waiting] at books
    split
    · exact books.cancel
    · rename_i foreign
      exact books.drop (Deferred.load?_eq_none foreign)

/-- Whatever a machine is asked, the books are kept. -/
theorem serve (lawful : host.Keeps (Custody mine)) (hands : host.HandsOwn mine)
    (coherent : machine.Coherent)
    (books : Books host mine past [] (Joined held machine.awaited?) world) (request : Request) :
    Books host mine past []
      (Joined held (machine.serve host world request).machine.awaited?)
      (machine.serve host world request).world := by
  have keeps : WaitInvariant host (World.poll host) (Orderly host mine past [] held) :=
    orderly_waitInvariant lawful hands fun _ _ orderly => orderly.pollWithin lawful hands _
  have halted := books.cancelWait.join machine.halted.awaited?
  cases request with
  | step => exact (keeps.step (Or.inl coherent) (.ofBooks books)).books
  | cycles budget => exact (keeps.runCycles budget (Or.inl coherent) (.ofBooks books)).books
  | burst => exact (keeps.runCycles _ (Or.inl coherent) (.ofBooks books)).books
  | resume => exact (keeps.resume (.ofBooks books)).books
  | pause =>
      unfold Machine.serve Machine.pause
      dsimp only
      split
      · exact books
      · split
        · exact books
        · split
          · exact books.quiet (.ofPass world _)
          · exact halted
  | stop =>
      unfold Machine.serve Machine.stop
      dsimp only
      split
      · exact books
      · exact halted

end Books

end World

end MiniScript
