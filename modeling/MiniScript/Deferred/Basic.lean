import MiniScript.Fault

/-!
# Results that come later

A deferred result is resolved once and its result is taken once; once it is
cancelled, a late result is dropped. At most one waiter is told of the
resolution: the last one that asked before it, or anyone who asks after it. A
deferred result may have a source of its own, which is asked for the result when
the deferred is polled.
-/

namespace MiniScript

/-- What a native delivers in the end. -/
abbrev Delivery := Except RuntimeError Value

structure Deferred (π : Type) where
  /-- The result, until it is taken. -/
  result : Option Delivery := none
  resolved : Bool := false
  cancelled : Bool := false
  /-- Where the result comes from when nobody else delivers it. -/
  source : Option π := none
  /-- Who will be told of the resolution. -/
  waiter : Option Nat := none
  /-- Who has been told, the latest first. -/
  woken : List Nat := []

namespace Deferred

variable {π : Type}

/-- Whether a result can still be delivered. -/
def isOpen (deferred : Deferred π) : Bool :=
  !deferred.resolved && !deferred.cancelled

/-- Whether polling alone can ever resolve it. -/
def isSelfDriving (deferred : Deferred π) : Bool :=
  deferred.source.isSome

/-- Delivers a result, unless there has been one or nobody wants it any more. -/
def resolve (deferred : Deferred π) (result : Delivery) : Deferred π :=
  if deferred.isOpen then
    { deferred with
      result := some result
      resolved := true
      source := none
      waiter := none
      woken := deferred.waiter.toList ++ deferred.woken }
  else deferred

/-- Asks to be told of the resolution. -/
def onReady (deferred : Deferred π) (waiter : Nat) : Deferred π :=
  if deferred.cancelled then deferred
  else if deferred.resolved then { deferred with woken := waiter :: deferred.woken }
  else { deferred with waiter := some waiter }

/-- The deferred once its result has been taken. -/
def take (deferred : Deferred π) : Deferred π :=
  { deferred with result := none }

/-- Nobody wants the result any more. -/
def cancel (deferred : Deferred π) : Deferred π :=
  { deferred with cancelled := true, source := none, waiter := none, result := none }

/-- The source of a deferred that is worth asking. -/
def pollable? (deferred : Deferred π) : Option π :=
  if deferred.isOpen then deferred.source else none

/-- The deferred while its source is being asked. -/
def lend (deferred : Deferred π) : Deferred π :=
  { deferred with source := none }

/-- Takes in what the source has answered: a result, or nothing yet. -/
def settle (deferred : Deferred π) (answer : Option Delivery) (source : π) : Deferred π :=
  match answer with
  | some result => deferred.resolve result
  | none => if deferred.isOpen then { deferred with source := some source } else deferred

/-- The state as it is shown to a host. -/
def describe (deferred : Deferred π) : String :=
  "Deferred \x7b resolved: " ++ toString deferred.resolved ++ ", cancelled: " ++
    toString deferred.cancelled ++ " \x7d"

theorem isOpen_resolve (deferred : Deferred π) (result : Delivery) :
    (deferred.resolve result).isOpen = false := by
  unfold resolve
  split
  · simp [isOpen]
  · simp_all

theorem resolve_of_closed {deferred : Deferred π} (closed : deferred.isOpen = false)
    (result : Delivery) : deferred.resolve result = deferred := by
  simp [resolve, closed]

theorem resolve_resolve (deferred : Deferred π) (first second : Delivery) :
    (deferred.resolve first).resolve second = deferred.resolve first :=
  resolve_of_closed (isOpen_resolve deferred first) second

theorem resolve_cancel (deferred : Deferred π) (result : Delivery) :
    deferred.cancel.resolve result = deferred.cancel := by
  simp [resolve, cancel, isOpen]

theorem pollable?_resolve (deferred : Deferred π) (result : Delivery) :
    (deferred.resolve result).pollable? = none := by
  simp [pollable?, isOpen_resolve]

end Deferred

end MiniScript
