import MiniScript.Proofs.World.Change

/-!
# What becomes of a deferred result

A handle and its copies share one deferred result, so what is done with them is one sequence
of uses. A use may call out: the source is asked while it is out of the handle, and whoever is
told of the resolution is told at once; both may use the handle again before they return. What
happens is noted in a log, the latest event first. Whatever the uses are, the first result that
is delivered while the handle is open resolves it, the last waiter is told then and there, and
that result can be taken once, unless the handle is cancelled.
-/

namespace MiniScript

namespace Deferred

variable {π : Type}

/-- What is done with a handle. -/
inductive Use (π : Type) where
  /-- Completes or fails it; if somebody is told of that, `reaction` is what they do. -/
  | deliver (result : Delivery) (reaction : List (Use π))
  /-- Polls it. While it is asked, the source does `meanwhile`; then it answers, and is left as
  `left` unless it has delivered a result. -/
  | poll (meanwhile : List (Use π)) (answer : Option Delivery) (left : π)
      (reaction : List (Use π))
  | onReady (waiter : Nat) (reaction : List (Use π))
  | take
  | cancel

/-- What has happened to a handle. -/
inductive Event where
  | registered (waiter : Nat)
  /-- Somebody has delivered a result, whether it was taken in or dropped. -/
  | delivered (result : Delivery)
  /-- A waiter has been told that there is a result. -/
  | told (waiter : Nat)
  /-- The source has been asked. -/
  | asked
  | taken (answer : Option Delivery)
  | cancelled

/-- A handle and its past. -/
structure History (π : Type) where
  deferred : Deferred π
  /-- The latest event first. -/
  log : List Event := []

/-- A new handle. -/
def fresh (source : Option π) : History π :=
  { deferred := { source } }

/-- Those who have been told by a change, the latest first. -/
def tellings (before after : Deferred π) : List Nat :=
  after.woken.take (after.woken.length - before.woken.length)

namespace History

/-- The handle has changed, and with it came these events; then its waiters were told. -/
def change (history : History π) (events : List Event) (after : Deferred π) : History π :=
  { deferred := after
    log := (tellings history.deferred after).map .told ++ events ++ history.log }

def deliver (history : History π) (result : Delivery) : History π :=
  history.change [.delivered result] (history.deferred.resolve result)

def register (history : History π) (waiter : Nat) : History π :=
  history.change [.registered waiter] (history.deferred.onReady waiter)

/-- The source is taken out of the handle and asked. -/
def ask (history : History π) : History π :=
  history.change [.asked] history.deferred.lend

/-- The source has answered. -/
def answer (history : History π) (answer : Option Delivery) (left : π) : History π :=
  history.change (answer.toList.map .delivered) (history.deferred.settle answer left)

def take (history : History π) : History π :=
  history.change [.taken history.deferred.result] history.deferred.take

def cancel (history : History π) : History π :=
  history.change [.cancelled] history.deferred.cancel

/-- Whether somebody has been told since. -/
def tells (before after : History π) : Bool :=
  !(tellings before.deferred after.deferred).isEmpty

mutual

def use (history : History π) : Use π → History π
  | .deliver result reaction =>
      let after := history.deliver result
      if history.tells after then after.useAll reaction else after
  | .poll meanwhile answer left reaction =>
      match history.deferred.pollable? with
      | none => history
      | some _ =>
          let asked := history.ask.useAll meanwhile
          let after := asked.answer answer left
          if asked.tells after then after.useAll reaction else after
  | .onReady waiter reaction =>
      let after := history.register waiter
      if history.tells after then after.useAll reaction else after
  | .take => history.take
  | .cancel => history.cancel

/-- One use after the other. -/
def useAll (history : History π) : List (Use π) → History π
  | [] => history
  | use :: uses => (history.use use).useAll uses

end

end History

/-! ### What a log says -/

/-- A result resolves a handle that is open, so after it or the cancellation no handle is. -/
def Event.closes : Event → Bool
  | .delivered _ => true
  | .cancelled => true
  | _ => false

/-- The handle is neither resolved nor cancelled. -/
def Open (log : List Event) : Prop :=
  ∀ event ∈ log, event.closes = false

/-- The first result that was delivered while the handle was open. -/
def ResolvedBy (log : List Event) (result : Delivery) : Prop :=
  ∃ before, (.delivered result :: before) <:+ log ∧ Open before

/-- The result can be taken. -/
def Available (log : List Event) (result : Delivery) : Prop :=
  ResolvedBy log result ∧ .cancelled ∉ log ∧ ∀ other, .taken (some other) ∉ log

def Event.registered? : Event → Option Nat
  | .registered waiter => some waiter
  | _ => none

/-- The last waiter that asked to be told. -/
def lastRegistered (log : List Event) : Option Nat :=
  log.findSome? Event.registered?

/-- A waiter is told next: the result has just resolved the handle and nobody asked later, or the
waiter itself has just asked and there has been a result. -/
inductive Owed : Nat → List Event → Prop
  | resolution {result : Delivery} {before : List Event} {waiter : Nat} (isOpen : Open before)
      (last : lastRegistered before = some waiter) : Owed waiter (.delivered result :: before)
  | late {result : Delivery} {before : List Event} {waiter : Nat}
      (resolved : ResolvedBy before result) (kept : .cancelled ∉ before) :
      Owed waiter (.registered waiter :: before)

/-- What may happen next. -/
inductive Rightful (log : List Event) : Event → Prop
  | registered (waiter : Nat) : Rightful log (.registered waiter)
  | delivered (result : Delivery) : Rightful log (.delivered result)
  | told {waiter : Nat} (owed : Owed waiter log) : Rightful log (.told waiter)
  | asked (isOpen : Open log) : Rightful log .asked
  | taken {answer : Option Delivery}
      (available : ∀ result, answer = some result ↔ Available log result) :
      Rightful log (.taken answer)
  | cancelled : Rightful log .cancelled

/-- Nothing has happened but what was rightful, and who had to be told was told at once. -/
structure Lawful (log : List Event) : Prop where
  rightful : ∀ event earlier, (event :: earlier) <:+ log → Rightful earlier event
  prompt : ∀ waiter earlier, earlier <:+ log → Owed waiter earlier →
    (.told waiter :: earlier) <:+ log

section

variable {log : List Event} {event : Event} {result : Delivery} {waiter : Nat}

theorem open_cons_iff : Open (event :: log) ↔ event.closes = false ∧ Open log :=
  List.forall_mem_cons

theorem resolvedBy_cons_iff : ResolvedBy (event :: log) result ↔
    ResolvedBy log result ∨ event = .delivered result ∧ Open log := by
  constructor
  · rintro ⟨before, suffix, isOpen⟩
    rcases List.suffix_cons_iff.mp suffix with same | within
    · cases same
      exact .inr ⟨rfl, isOpen⟩
    · exact .inl ⟨before, within, isOpen⟩
  · rintro (⟨before, suffix, isOpen⟩ | ⟨rfl, isOpen⟩)
    · exact ⟨before, List.suffix_cons_iff.mpr (.inr suffix), isOpen⟩
    · exact ⟨log, List.suffix_rfl, isOpen⟩

/-- Telling changes nothing of what is there. -/
theorem resolvedBy_tellings (told : List Nat) :
    ResolvedBy (told.map .told ++ log) result ↔ ResolvedBy log result := by
  induction told with
  | nil => rfl
  | cons waiter told ih => simpa [resolvedBy_cons_iff] using ih

theorem available_tellings (told : List Nat) :
    Available (told.map .told ++ log) result ↔ Available log result := by
  simp [Available, resolvedBy_tellings]

theorem not_resolvedBy_of_open (isOpen : Open log) : ¬ ResolvedBy log result := by
  rintro ⟨before, suffix, -⟩
  cases isOpen _ (suffix.subset List.mem_cons_self)

/-- A handle is open until there is a first result or it is cancelled. -/
theorem open_iff : Open log ↔ (∀ result, ¬ ResolvedBy log result) ∧ .cancelled ∉ log := by
  constructor
  · intro isOpen
    refine ⟨fun result => not_resolvedBy_of_open isOpen, fun cancelled => ?_⟩
    cases isOpen _ cancelled
  · rintro ⟨unresolved, kept⟩
    induction log with
    | nil => exact List.forall_mem_nil _
    | cons event log ih =>
        rw [List.mem_cons, not_or] at kept
        have isOpen := ih (fun result resolved =>
          unresolved result (resolvedBy_cons_iff.mpr (.inl resolved))) kept.2
        rw [open_cons_iff]
        refine ⟨?_, isOpen⟩
        cases event with
        | delivered result =>
            have resolves : ResolvedBy (.delivered result :: log) result :=
              resolvedBy_cons_iff.mpr (.inr ⟨rfl, isOpen⟩)
            exact absurd resolves (unresolved result)
        | cancelled => exact absurd rfl kept.1
        | _ => rfl

/-- There is only one first result. -/
theorem ResolvedBy.unique {other : Delivery} (first : ResolvedBy log result)
    (second : ResolvedBy log other) : result = other := by
  induction log with
  | nil =>
      obtain ⟨before, suffix, -⟩ := first
      cases List.suffix_nil.mp suffix
  | cons event log ih =>
      rcases resolvedBy_cons_iff.mp first with earlier | ⟨rfl, isOpen⟩
      · rcases resolvedBy_cons_iff.mp second with again | ⟨rfl, isOpen⟩
        · exact ih earlier again
        · exact absurd earlier (not_resolvedBy_of_open isOpen)
      · rcases resolvedBy_cons_iff.mp second with again | ⟨same, -⟩
        · exact absurd again (not_resolvedBy_of_open isOpen)
        · cases same
          rfl

theorem Owed.unique {other : Nat} (first : Owed waiter log) (second : Owed other log) :
    waiter = other := by
  cases first with
  | resolution isOpen last =>
      cases second with
      | resolution _ again => exact Option.some.inj (last.symm.trans again)
  | late resolved kept =>
      cases second with
      | late => rfl

namespace Lawful

theorem nil : Lawful [] where
  rightful event earlier suffix := by cases List.suffix_nil.mp suffix
  prompt waiter earlier suffix owed := by
    rw [List.suffix_nil.mp suffix] at owed
    cases owed

/-- An event after which nobody has to be told. -/
theorem cons (lawful : Lawful log) (rightful : Rightful log event)
    (paid : ∀ waiter, ¬ Owed waiter (event :: log)) : Lawful (event :: log) where
  rightful other earlier suffix := by
    rcases List.suffix_cons_iff.mp suffix with same | within
    · cases same
      exact rightful
    · exact lawful.rightful other earlier within
  prompt waiter earlier suffix owed := by
    rcases List.suffix_cons_iff.mp suffix with rfl | within
    · exact absurd owed (paid waiter)
    · exact (lawful.prompt waiter earlier within owed).trans (List.suffix_cons _ _)

/-- An event with the telling that follows from it. -/
theorem tell (lawful : Lawful log) (rightful : Rightful log event)
    (owed : Owed waiter (event :: log)) : Lawful (.told waiter :: event :: log) where
  rightful other earlier suffix := by
    rcases List.suffix_cons_iff.mp suffix with same | within
    · cases same
      exact .told owed
    · rcases List.suffix_cons_iff.mp within with same | within
      · cases same
        exact rightful
      · exact lawful.rightful other earlier within
  prompt other earlier suffix again := by
    rcases List.suffix_cons_iff.mp suffix with rfl | within
    · cases again
    · rcases List.suffix_cons_iff.mp within with rfl | within
      · obtain rfl := again.unique owed
        exact List.suffix_rfl
      · exact (lawful.prompt other earlier within again).trans
          ((List.suffix_cons _ _).trans (List.suffix_cons _ _))

end Lawful

end

/-! ### What follows from a lawful past -/

/-- Whether a result has been taken. -/
def Event.isTaken : Event → Bool
  | .taken (some _) => true
  | _ => false

/-- What a handle that has been cancelled no longer does. -/
def Event.isSilent : Event → Bool
  | .told _ => false
  | .asked => false
  | .taken (some _) => false
  | _ => true

section

variable {log : List Event}

theorem Owed.kept {waiter : Nat} (owed : Owed waiter log) : .cancelled ∉ log := by
  cases owed with
  | resolution isOpen => simpa using (open_iff.mp isOpen).2
  | late resolved kept => simpa using kept

theorem Rightful.isSilent {event : Event} (rightful : Rightful log event)
    (cancelled : .cancelled ∈ log) : event.isSilent = true := by
  cases rightful with
  | told owed => exact absurd cancelled owed.kept
  | asked isOpen => exact absurd cancelled (open_iff.mp isOpen).2
  | @taken answer available =>
      cases answer with
      | none => rfl
      | some result => exact absurd cancelled ((available result).mp rfl).2.1
  | _ => rfl

theorem countP_isTaken_le
    (rightful : ∀ event earlier, (event :: earlier) <:+ log → Rightful earlier event) :
    log.countP Event.isTaken ≤ 1 := by
  induction log with
  | nil => exact Nat.zero_le 1
  | cons event log ih =>
      have others := ih fun other earlier suffix =>
        rightful other earlier (suffix.trans (List.suffix_cons _ _))
      have latest := rightful event log List.suffix_rfl
      rw [List.countP_cons]
      cases taken : event.isTaken with
      | false => exact others
      | true =>
          have untaken : log.countP Event.isTaken = 0 := by
            rw [List.countP_eq_zero]
            intro other mem again
            unfold Event.isTaken at taken again
            split at taken
            · split at again
              · cases latest with
                | taken available => exact ((available _).mp rfl).2.2 _ mem
              · cases again
            · cases taken
          rw [untaken]
          exact Nat.le_refl 1

/-- A handle resolves once: there is one delivery that resolves it, its result is taken at most
once, and a handle that is cancelled asks its source no more, tells nobody and gives no result. -/
structure ResolvesOnce (log : List Event) : Prop extends Lawful log where
  takenOnce : log.countP Event.isTaken ≤ 1
  resolvedOnce : ∀ first second before earlier, (.delivered first :: before) <:+ log →
    (.delivered second :: earlier) <:+ log → Open before → Open earlier → before = earlier
  silent : ∀ later earlier, log = later ++ .cancelled :: earlier →
    ∀ event ∈ later, event.isSilent = true

theorem Lawful.resolvesOnce (lawful : Lawful log) : ResolvesOnce log where
  toLawful := lawful
  takenOnce := countP_isTaken_le lawful.rightful
  resolvedOnce first second before earlier one two isOpen opened := by
    rcases List.suffix_or_suffix_of_suffix one two with within | within
    · rcases List.suffix_cons_iff.mp within with same | inner
      · cases same
        rfl
      · exact absurd ⟨before, inner, isOpen⟩ (not_resolvedBy_of_open opened)
    · rcases List.suffix_cons_iff.mp within with same | inner
      · cases same
        rfl
      · exact absurd ⟨earlier, inner, opened⟩ (not_resolvedBy_of_open isOpen)
  silent later earlier split event mem := by
    obtain ⟨after, between, rfl⟩ := List.append_of_mem mem
    have suffix : (event :: (between ++ .cancelled :: earlier)) <:+ log :=
      ⟨after, by rw [split, List.append_assoc, List.cons_append]⟩
    exact (lawful.rightful _ _ suffix).isSilent (by simp)

end

/-- The log accounts for the state of a handle. -/
structure Recorded (log : List Event) (deferred : Deferred π) : Prop where
  cancelled : deferred.cancelled = true ↔ .cancelled ∈ log
  resolved : deferred.resolved = true ↔ ∃ result, ResolvedBy log result
  result : ∀ result, deferred.result = some result ↔ Available log result
  waiter : deferred.isOpen = true → deferred.waiter = lastRegistered log
  lawful : Lawful log

namespace Recorded

variable {log : List Event} {deferred : Deferred π}

theorem isOpen_iff (recorded : Recorded log deferred) :
    deferred.isOpen = true ↔ Open log := by
  rw [open_iff, ← recorded.cancelled, ← not_exists, ← recorded.resolved, isOpen]
  cases deferred.resolved <;> cases deferred.cancelled <;> decide

theorem not_open (recorded : Recorded log deferred) (closed : deferred.isOpen = false) :
    ¬ Open log := by
  rw [← recorded.isOpen_iff, closed]
  exact Bool.false_ne_true

/-- Of a handle that is open nothing has been taken. -/
theorem not_taken (recorded : Recorded log deferred) (isOpen : Open log) (result : Delivery) :
    .taken (some result) ∉ log := by
  intro taken
  obtain ⟨later, earlier, rfl⟩ := List.append_of_mem taken
  have rightful := recorded.lawful.rightful _ earlier (List.suffix_append _ _)
  cases rightful with
  | taken available =>
      have resolved := ((available result).mp rfl).1
      exact not_resolvedBy_of_open (fun event mem => isOpen event (by simp [mem])) resolved

theorem deliver (recorded : Recorded log deferred) (result : Delivery) :
    ∃ told, (deferred.resolve result).woken = told ++ deferred.woken ∧
      Recorded (told.map Event.told ++ [Event.delivered result] ++ log)
        (deferred.resolve result) := by
  cases opened : deferred.isOpen with
  | false =>
      have closed := recorded.not_open opened
      rw [resolve_of_closed opened]
      refine ⟨[], rfl, ?_, ?_, ?_, ?_, ?_⟩
      · simp [recorded.cancelled]
      · simp [recorded.resolved, resolvedBy_cons_iff, closed]
      · simp [recorded.result, Available, resolvedBy_cons_iff, closed]
      · rw [opened]
        nofun
      · refine recorded.lawful.cons (.delivered result) fun waiter owed => ?_
        cases owed with
        | resolution isOpen => exact closed isOpen
  | true =>
      have isOpen := recorded.isOpen_iff.mp opened
      have waits := recorded.waiter opened
      have kept := (open_iff.mp isOpen).2
      simp only [resolve, opened, if_true]
      refine ⟨deferred.waiter.toList, rfl, ?_, ?_, ?_, ?_, ?_⟩
      · simp [recorded.cancelled]
      · rw [List.append_assoc]
        simp [resolvedBy_tellings, resolvedBy_cons_iff, isOpen]
      · intro other
        rw [List.append_assoc, available_tellings]
        simp [Available, resolvedBy_cons_iff, isOpen, kept, recorded.not_taken isOpen,
          not_resolvedBy_of_open isOpen]
      · simp [Deferred.isOpen]
      · rw [waits]
        cases last : lastRegistered log with
        | none =>
            refine recorded.lawful.cons (.delivered result) fun waiter owed => ?_
            cases owed with
            | resolution _ found => cases last.symm.trans found
        | some waiter =>
            exact recorded.lawful.tell (.delivered result) (.resolution isOpen last)

theorem register (recorded : Recorded log deferred) (waiter : Nat) :
    ∃ told, (deferred.onReady waiter).woken = told ++ deferred.woken ∧
      Recorded (told.map Event.told ++ [Event.registered waiter] ++ log)
        (deferred.onReady waiter) := by
  unfold onReady
  split
  · rename_i cancelled
    refine ⟨[], rfl, ?_, ?_, ?_, ?_, ?_⟩
    · simp [recorded.cancelled]
    · simp [recorded.resolved, resolvedBy_cons_iff]
    · simp [recorded.result, Available, resolvedBy_cons_iff]
    · simp [isOpen, cancelled]
    · refine recorded.lawful.cons (.registered waiter) fun waiter owed => ?_
      cases owed with
      | late _ kept => exact kept (recorded.cancelled.mp cancelled)
  · rename_i kept
    split
    · rename_i resolved
      refine ⟨[waiter], rfl, ?_, ?_, ?_, ?_, ?_⟩
      · simp [recorded.cancelled]
      · simp [recorded.resolved, resolvedBy_cons_iff]
      · simp [recorded.result, Available, resolvedBy_cons_iff]
      · simp [isOpen, resolved]
      · obtain ⟨result, known⟩ := recorded.resolved.mp resolved
        exact recorded.lawful.tell (.registered waiter)
          (.late known (fun cancelled => kept (recorded.cancelled.mpr cancelled)))
    · rename_i unresolved
      refine ⟨[], rfl, ?_, ?_, ?_, ?_, ?_⟩
      · simp [recorded.cancelled]
      · simp [recorded.resolved, resolvedBy_cons_iff]
      · simp [recorded.result, Available, resolvedBy_cons_iff]
      · intro _
        rfl
      · refine recorded.lawful.cons (.registered waiter) fun waiter owed => ?_
        cases owed with
        | late resolved _ => exact unresolved (recorded.resolved.mpr ⟨_, resolved⟩)

theorem ask (recorded : Recorded log deferred) (opened : deferred.isOpen = true) :
    Recorded (.asked :: log) deferred.lend where
  cancelled := by simp [lend, recorded.cancelled]
  resolved := by simp [lend, recorded.resolved, resolvedBy_cons_iff]
  result := by simp [lend, recorded.result, Available, resolvedBy_cons_iff]
  waiter _ := recorded.waiter opened
  lawful := recorded.lawful.cons (.asked (recorded.isOpen_iff.mp opened)) nofun

theorem answer (recorded : Recorded log deferred) (answer : Option Delivery) (left : π) :
    ∃ told, (deferred.settle answer left).woken = told ++ deferred.woken ∧
      Recorded (told.map .told ++ answer.toList.map .delivered ++ log)
        (deferred.settle answer left) := by
  cases answer with
  | some result => exact recorded.deliver result
  | none =>
      unfold settle
      dsimp only
      split
      · exact ⟨[], rfl, recorded.cancelled, recorded.resolved, recorded.result, recorded.waiter,
          recorded.lawful⟩
      · exact ⟨[], rfl, recorded⟩

theorem take (recorded : Recorded log deferred) :
    Recorded (.taken deferred.result :: log) deferred.take where
  cancelled := by simp [Deferred.take, recorded.cancelled]
  resolved := by simp [Deferred.take, recorded.resolved, resolvedBy_cons_iff]
  result result := by
    refine ⟨nofun, ?_⟩
    rintro ⟨resolved, kept, untaken⟩
    have available : Available log result :=
      ⟨by simpa [resolvedBy_cons_iff] using resolved, fun mem => kept (.tail _ mem),
        fun other mem => untaken other (.tail _ mem)⟩
    rw [(recorded.result result).mpr available] at untaken
    exact absurd List.mem_cons_self (untaken result)
  waiter := recorded.waiter
  lawful := recorded.lawful.cons (.taken recorded.result) nofun

theorem cancel (recorded : Recorded log deferred) :
    Recorded (.cancelled :: log) deferred.cancel where
  cancelled := by simp [Deferred.cancel]
  resolved := by simp [Deferred.cancel, recorded.resolved, resolvedBy_cons_iff]
  result := by simp [Deferred.cancel, Available]
  waiter := by simp [Deferred.cancel, Deferred.isOpen]
  lawful := recorded.lawful.cons .cancelled nofun

end Recorded

theorem fresh_recorded (source : Option π) :
    Recorded (fresh source).log (fresh source).deferred where
  cancelled := by simp [fresh]
  resolved := by simp [fresh, ResolvedBy]
  result := by simp [fresh, Available, ResolvedBy]
  waiter _ := rfl
  lawful := .nil

namespace History

variable {history : History π}

def IsRecorded (history : History π) : Prop :=
  Recorded history.log history.deferred

theorem change_recorded {events : List Event} {after : Deferred π}
    (recorded : ∃ told, after.woken = told ++ history.deferred.woken ∧
      Recorded (told.map .told ++ events ++ history.log) after) :
    (history.change events after).IsRecorded := by
  obtain ⟨told, woken, recorded⟩ := recorded
  have same : tellings history.deferred after = told := by simp [tellings, woken]
  rw [IsRecorded, change, same]
  exact recorded

theorem ask_recorded {source : π} (recorded : history.IsRecorded)
    (pollable : history.deferred.pollable? = some source) :
    history.ask.IsRecorded := by
  have opened : history.deferred.isOpen = true := by
    unfold pollable? at pollable
    split at pollable
    · assumption
    · cases pollable
  exact change_recorded ⟨[], rfl, Recorded.ask recorded opened⟩

mutual

/-- Each use keeps the account, whatever is done meanwhile and in reaction to it. -/
theorem use_recorded : ∀ (history : History π) (use : Use π), history.IsRecorded →
    (history.use use).IsRecorded
  | history, .deliver result reaction, recorded => by
      have delivered : (history.deliver result).IsRecorded :=
        change_recorded (Recorded.deliver recorded result)
      unfold use
      dsimp only
      split
      · exact useAll_recorded _ reaction delivered
      · exact delivered
  | history, .poll meanwhile answer left reaction, recorded => by
      unfold use
      split
      · exact recorded
      · rename_i source pollable
        have asked := useAll_recorded _ meanwhile (ask_recorded recorded pollable)
        have answered : ((history.ask.useAll meanwhile).answer answer left).IsRecorded :=
          change_recorded (Recorded.answer asked answer left)
        dsimp only
        split
        · exact useAll_recorded _ reaction answered
        · exact answered
  | history, .onReady waiter reaction, recorded => by
      have registered : (history.register waiter).IsRecorded :=
        change_recorded (Recorded.register recorded waiter)
      unfold use
      dsimp only
      split
      · exact useAll_recorded _ reaction registered
      · exact registered
  | history, .take, recorded => change_recorded ⟨[], rfl, Recorded.take recorded⟩
  | history, .cancel, recorded => change_recorded ⟨[], rfl, Recorded.cancel recorded⟩

theorem useAll_recorded : ∀ (history : History π) (uses : List (Use π)), history.IsRecorded →
    (history.useAll uses).IsRecorded
  | history, [], recorded => recorded
  | history, use :: uses, recorded => by
      unfold useAll
      exact useAll_recorded _ uses (use_recorded history use recorded)

end

end History

/-- Whatever is done with a new handle and its copies, in whatever order, whatever its source does
while it is asked and whoever is told of the result does then: it resolves once. -/
theorem every_handle_resolves_once (source : Option π) (uses : List (Use π)) :
    ResolvesOnce ((fresh source).useAll uses).log :=
  (History.useAll_recorded _ uses (fresh_recorded source)).lawful.resolvesOnce

/-- The source completes its own handle while it is asked; the second waiter then takes the result,
and what the source answers comes too late. -/
example : ((fresh (some ())).useAll [.onReady 1 [], .onReady 2 [],
    .poll [.poll [] none () [], .deliver (.ok .null) [.take]] (some (.ok (.text "late"))) () [],
    .take, .onReady 3 [.cancel], .onReady 4 []]).log.reverse =
      [.registered 1, .registered 2, .asked, .delivered (.ok .null), .told 2,
        .taken (some (.ok .null)), .delivered (.ok (.text "late")), .taken none, .registered 3,
        .told 3, .cancelled, .registered 4] := rfl

end Deferred

namespace World

variable {σ : Type} {host : Host σ} {world : World σ} {ref : DeferredRef} {id : Nat}

/-- A poll of a result that the host is to deliver is such a use, if that is what the host does
with the handle while it is asked. -/
theorem pollWithin_deferred (pollable : (world.deferred ref).pollable? = some (.host id))
    {meanwhile : List (Deferred.Use Provider)} (past : List Deferred.Event) (level : Nat)
    (known : ref.index < (host.poll id (world.modifyDeferred ref .lend)).2.deferreds.size)
    (does : (host.poll id (world.modifyDeferred ref .lend)).2.deferred ref =
      ((Deferred.History.mk (world.deferred ref) past).ask.useAll meanwhile).deferred) :
    (world.pollWithin host (level + 1) ref).deferred ref =
      ((Deferred.History.mk (world.deferred ref) past).use (.poll meanwhile
        (host.poll id (world.modifyDeferred ref .lend)).1 (.host id) [])).deferred := by
  unfold pollWithin Deferred.History.use
  rw [pollable]
  dsimp only
  rw [deferred_modifyDeferred_self _ ref _ known, does]
  split <;> rfl

end World

end MiniScript
