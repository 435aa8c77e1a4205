import MiniScript.Operator.Member
import MiniScript.Text.Case
import MiniScript.World.Host

/-!
# The built-in functions at work

A built-in function checks its arguments, reads the world and changes it, one
after the other. Where it fails it stops, and what it has changed stays changed.
-/

namespace MiniScript

/-- A function at work in the world: it answers or fails, and leaves a world behind either way. -/
abbrev Routine (σ : Type) := ExceptT RuntimeError (StateM (World σ))

namespace Library

variable {σ : Type}

def wrongReceiver (call : Invocation) (receiver : Value) : Fault :=
  .wrongReceiver call.name receiver.kind

/-- The numbers from zero up to, but not including, `count`. -/
def counted (count : Nat) : Array Value :=
  (Array.range count).map fun index => .number (Number.ofCount index)

/-- Each character of a string as a string. -/
def characters (text : String) : Array Value :=
  (text.toList.map fun char => Value.text (String.ofList [char])).toArray

def str (heap : Heap) : Value → Value
  | .null => .text ""
  | value => .text (heap.display value)

/-- The step of a range without one: up or down by one. -/
def rangeStep (call : Invocation) (first last : Float) : Except Fault Float :=
  match call.arg 2 with
  | .null => .ok (if last ≥ first then 1.0 else -1.0)
  | _ => call.number 2

def len (heap : Heap) : Value → Value
  | .list ref => .number (Number.ofCount (heap.items ref).size)
  | .text text => .number (Number.ofCount text.length)
  | .map ref => .number (Number.ofCount (heap.entries ref).length)
  | _ => .null

/-- The position that a key names in a sequence, if it is a number and lies inside. -/
def keyPosition? (key : Value) (length : Nat) : Option Nat := do
  let raw := Number.toWhole (← key.asNumber?)
  let index := if raw < 0 then raw + length else raw
  if 0 ≤ index && index < length then some index.toNat else none

/-- The text without the first occurrence of `needle`. -/
def withoutFirst (needle text : List Char) : List Char :=
  match Text.find? needle text with
  | some offset =>
      if needle.isEmpty then text
      else
        Text.takeBytes offset text ++ Text.dropBytes (offset + Text.byteSize needle) text
  | none => text

/-- The pieces of a text between the delimiters; without a delimiter, its characters. -/
def splitText (delimiter text : String) : Array Value :=
  if delimiter.isEmpty then characters text
  else
    ((Text.splitOn delimiter.toList text.toList).map fun piece =>
      Value.text (String.ofList piece)).toArray

/-- Changes the characters of a string; any other value stays as it is. -/
def onText (change : List Char → List Char) : Value → Value
  | .text text => .text (String.ofList (change text.toList))
  | other => other

namespace Routine

def fail {α : Type} (fault : Fault) : Routine σ α :=
  throw { fault }

def check {α : Type} : Except Fault α → Routine σ α
  | .ok value => pure value
  | .error fault => fail fault

def heap : Routine σ Heap :=
  return (← get).heap

def change (write : Heap → Heap) : Routine σ Unit :=
  modify fun world => world.modifyHeap write

def ready (value : Value) : Routine σ Reply :=
  return ⟨.ready value, false⟩

/-- Answers a new list. -/
def readyList (items : Array Value) : Routine σ Reply := do
  let (list, heap) := (← heap).newList items
  change fun _ => heap
  ready (.list list)

def print (call : Invocation) : Routine σ Reply := do
  let line := (← heap).display (call.arg 0)
  modify fun world => world.print line
  ready .null

/-- The numbers from one bound to another, both included, step by step. -/
def range (call : Invocation) : Routine σ Reply := do
  let first ← check (call.number 0)
  let last ← check (call.number 1)
  let step ← check (rangeStep call first last)
  if step == 0.0 || !step.isFinite then fail .rangeStep
  else
    let span := (last - first) / step
    let count := if span < 0.0 then 0.0 else Number.floor span + 1.0
    let limit := (← get).limits.maxSequenceLen
    if count > Number.ofCount limit then fail (.rangeTooLong count limit)
    else
      readyList ((Array.range (Number.toCount count)).map fun index =>
        .number (first + step * Number.ofCount index))

/-- Appends to a list, or adds a key with the value one to a map. -/
def push (call : Invocation) : Routine σ Reply := do
  let receiver := call.arg 0
  match receiver with
  | .list ref => change fun heap => heap.modifyItems ref fun items => items.push (call.arg 1)
  | .map ref => change fun heap => heap.insert ref (call.arg 1) (.number 1.0)
  | other => fail (wrongReceiver call other)
  ready receiver

/-- Takes the last item off a list, or the first key out of a map. -/
def pop (call : Invocation) : Routine σ Reply := do
  match call.arg 0 with
  | .list ref =>
      let last := ((← heap).items ref).back?
      change fun heap => heap.modifyItems ref Array.pop
      ready (last.getD .null)
  | .map ref =>
      match (← heap).entries ref with
      | [] => ready .null
      | entry :: _ =>
          change fun heap => heap.remove ref entry.key
          ready entry.key
  | other => fail (wrongReceiver call other)

/-- Takes out a key, the item at a position, or the first occurrence of a text. -/
def remove (call : Invocation) : Routine σ Reply := do
  let key := call.arg 1
  match call.arg 0 with
  | .map ref =>
      let removed := (← heap).removed? ref key
      change fun heap => heap.remove ref key
      ready (.truth removed.isSome)
  | .list ref =>
      match keyPosition? key ((← heap).items ref).size with
      | some position =>
          change fun heap => heap.modifyItems ref fun items => items.eraseIdxIfInBounds position
          ready .null
      | none => fail (.removalOutOfRange ((← heap).reprDuring (some ref) key))
  | .text text =>
      ready (.text (String.ofList (withoutFirst ((← heap).display key).toList text.toList)))
  | other => fail (wrongReceiver call other)

/-- The position of an item, the place of a text in another, or the key of a value. -/
def indexOf (call : Invocation) : Routine σ Reply := do
  let needle := call.arg 1
  let heap ← heap
  match call.arg 0 with
  | .list ref =>
      match (heap.items ref).findIdx? fun item => heap.equal item needle with
      | some index => ready (.number (Number.ofCount index))
      | none => ready .null
  | .text text =>
      match Text.find? (heap.display needle).toList text.toList with
      | some offset =>
          ready (.number (Number.ofCount (Text.takeBytes offset text.toList).length))
      | none => ready .null
  | .map ref =>
      match (heap.entries ref).find? fun entry => heap.equal entry.value needle with
      | some entry => ready entry.key
      | none => ready .null
  | other => fail (wrongReceiver call other)

def hasIndex (call : Invocation) : Routine σ Reply := do
  let key := call.arg 1
  match call.arg 0 with
  | .list ref => ready (.truth (keyPosition? key ((← heap).items ref).size).isSome)
  | .text text => ready (.truth (keyPosition? key text.length).isSome)
  | .map ref => ready (.truth ((← heap).contains ref key))
  | other => fail (wrongReceiver call other)

def indexes (call : Invocation) : Routine σ Reply := do
  match call.arg 0 with
  | .list ref => readyList (counted ((← heap).items ref).size)
  | .text text => readyList (counted text.length)
  | .map ref => readyList (((← heap).entries ref).map (·.key)).toArray
  | other => fail (wrongReceiver call other)

def values (call : Invocation) : Routine σ Reply := do
  match call.arg 0 with
  | .list ref => readyList ((← heap).items ref)
  | .text text => readyList (characters text)
  | .map ref => readyList (((← heap).entries ref).map (·.value)).toArray
  | other => fail (wrongReceiver call other)

def join (call : Invocation) : Routine σ Reply := do
  match call.arg 0 with
  | .list ref =>
      let heap ← heap
      ready (.text ((heap.display (call.arg 1)).intercalate
        ((heap.items ref).toList.map heap.display)))
  | other => fail (wrongReceiver call other)

def split (call : Invocation) : Routine σ Reply := do
  match call.arg 0 with
  | .text text => readyList (splitText ((← heap).display (call.arg 1)) text)
  | other => fail (wrongReceiver call other)

/-- Withholds null for a number of seconds. -/
def wait (call : Invocation) : Routine σ Reply := do
  let seconds ← check (call.number 0)
  let world ← get
  let deadline := world.clock + Number.toCount (seconds * 1e9)
  set (world.addDeferred (some (.clock deadline)))
  return ⟨.pending world.nextDeferred, false⟩

end Routine

open Routine

/-- The routine of a built-in function. -/
def routine (builtin : Builtin) (call : Invocation) : Routine σ Reply := do
  match builtin with
  | .print => print call
  | .str => ready (str (← heap) (call.arg 0))
  | .range => range call
  | .len => ready (len (← heap) (call.arg 0))
  | .push => push call
  | .pop => pop call
  | .remove => remove call
  | .indexOf => indexOf call
  | .hasIndex => hasIndex call
  | .indexes => indexes call
  | .values => values call
  | .join => join call
  | .split => split call
  | .upper => ready (onText Text.upper (call.arg 0))
  | .lower => ready (onText Text.lower (call.arg 0))
  | .abs => ready (.number (← check (call.number 0)).abs)
  | .floor => ready (.number (Number.floor (← check (call.number 0))))
  | .time => ready (.number (← get).elapsed)
  | .wait => wait call
  | .yield => return ⟨.ready .null, true⟩
  | .listType => ready (.map (← get).core.list)
  | .textType => ready (.map (← get).core.text)
  | .numberType => ready (.map (← get).core.number)
  | .mapType => ready (.map (← get).core.map)
  | .functionType => ready (.map (← get).core.function)

end Library

end MiniScript
