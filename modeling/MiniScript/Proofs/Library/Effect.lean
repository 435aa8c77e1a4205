import MiniScript.Library.Basic

/-!
# What the built-in functions do

A built-in function could first look at its arguments and at the world and either
fail or decide on an effect, which is a change of the heap, a printed line and an
answer, and only then carry it out. That comes to the same as what its routine does
step by step.
-/

namespace MiniScript

/-- What a call that has been accepted does and answers. -/
structure Effect where
  change : Heap → Heap := id
  line : Option String := none
  answer : Draft := .plain .null
  /-- The time until which the answer, null, is withheld. -/
  deadline : Option Nat := none
  yields : Bool := false

namespace Library

variable {σ : Type}

def answer (draft : Draft) : Except Fault Effect :=
  .ok { answer := draft }

def answerValue (value : Value) : Except Fault Effect :=
  answer (.plain value)

/-- The numbers from one bound to another, both included, step by step. -/
def range (limits : Limits) (call : Invocation) : Except Fault Effect := do
  let first ← call.number 0
  let last ← call.number 1
  let step ← rangeStep call first last
  if step == 0.0 || !step.isFinite then
    .error .rangeStep
  else
    let span := (last - first) / step
    let count := if span < 0.0 then 0.0 else Number.floor span + 1.0
    if count > Number.ofCount limits.maxSequenceLen then
      .error (.rangeTooLong count limits.maxSequenceLen)
    else
      answer (.list ((Array.range (Number.toCount count)).map fun index =>
        .number (first + step * Number.ofCount index)))

/-- Appends to a list, or adds a key with the value one to a map. -/
def push (call : Invocation) : Except Fault Effect :=
  let receiver := call.arg 0
  let value := call.arg 1
  match receiver with
  | .list ref =>
      .ok { change := fun heap => heap.modifyItems ref fun items => items.push value
            answer := .plain receiver }
  | .map ref =>
      .ok { change := fun heap => heap.insert ref value (.number 1.0)
            answer := .plain receiver }
  | other => .error (wrongReceiver call other)

/-- Takes the last item off a list, or the first key out of a map. -/
def pop (heap : Heap) (call : Invocation) : Except Fault Effect :=
  match call.arg 0 with
  | .list ref =>
      .ok { change := fun heap => heap.modifyItems ref Array.pop
            answer := .plain ((heap.items ref).back?.getD .null) }
  | .map ref =>
      match heap.entries ref with
      | [] => answerValue .null
      | entry :: _ =>
          .ok { change := fun heap => heap.remove ref entry.key
                answer := .plain entry.key }
  | other => .error (wrongReceiver call other)

/-- Takes out a key, the item at a position, or the first occurrence of a text. -/
def remove (heap : Heap) (call : Invocation) : Except Fault Effect :=
  let key := call.arg 1
  match call.arg 0 with
  | .map ref =>
      .ok { change := fun heap => heap.remove ref key
            answer := .truth (heap.removed? ref key).isSome }
  | .list ref =>
      match keyPosition? key (heap.items ref).size with
      | some position =>
          .ok { change := fun heap => heap.modifyItems ref fun items =>
                  items.eraseIdxIfInBounds position }
      | none => .error (.removalOutOfRange (heap.reprDuring (some ref) key))
  | .text text => answer (.text (withoutFirst (heap.display key).toList text.toList))
  | other => .error (wrongReceiver call other)

/-- The position of an item, the place of a text in another, or the key of a value. -/
def indexOf (heap : Heap) (call : Invocation) : Except Fault Effect :=
  let needle := call.arg 1
  match call.arg 0 with
  | .list ref =>
      match (heap.items ref).findIdx? fun item => heap.equal item needle with
      | some index => answer (.number (Number.ofCount index))
      | none => answerValue .null
  | .text text =>
      match Text.find? (heap.display needle).toList text.toList with
      | some offset =>
          answer (.number (Number.ofCount (Text.takeBytes offset text.toList).length))
      | none => answerValue .null
  | .map ref =>
      match (heap.entries ref).find? fun entry => heap.equal entry.value needle with
      | some entry => answerValue entry.key
      | none => answerValue .null
  | other => .error (wrongReceiver call other)

def hasIndex (heap : Heap) (call : Invocation) : Except Fault Effect :=
  let key := call.arg 1
  match call.arg 0 with
  | .list ref => answer (.truth (keyPosition? key (heap.items ref).size).isSome)
  | .text text => answer (.truth (keyPosition? key text.length).isSome)
  | .map ref => answer (.truth (heap.contains ref key))
  | other => .error (wrongReceiver call other)

def indexes (heap : Heap) (call : Invocation) : Except Fault Effect :=
  match call.arg 0 with
  | .list ref => answer (.list (counted (heap.items ref).size))
  | .text text => answer (.list (counted text.length))
  | .map ref => answer (.list ((heap.entries ref).map (·.key)).toArray)
  | other => .error (wrongReceiver call other)

def values (heap : Heap) (call : Invocation) : Except Fault Effect :=
  match call.arg 0 with
  | .list ref => answer (.list (heap.items ref))
  | .text text => answer (.list (characters text))
  | .map ref => answer (.list ((heap.entries ref).map (·.value)).toArray)
  | other => .error (wrongReceiver call other)

def join (heap : Heap) (call : Invocation) : Except Fault Effect :=
  match call.arg 0 with
  | .list ref =>
      answerValue (.text ((heap.display (call.arg 1)).intercalate
        ((heap.items ref).toList.map heap.display)))
  | other => .error (wrongReceiver call other)

def split (heap : Heap) (call : Invocation) : Except Fault Effect :=
  match call.arg 0 with
  | .text text => answer (.list (splitText (heap.display (call.arg 1)) text))
  | other => .error (wrongReceiver call other)

/-- Withholds null for a number of seconds. -/
def withhold (clock : Nat) (call : Invocation) : Except Fault Effect := do
  let seconds ← call.number 0
  return { deadline := some (clock + Number.toCount (seconds * 1e9)) }

/-- The effect of a built-in function. -/
def effect (world : World σ) (builtin : Builtin) (call : Invocation) : Except Fault Effect :=
  let heap := world.heap
  match builtin with
  | .print => .ok { line := some (heap.display (call.arg 0)) }
  | .str => answerValue (str heap (call.arg 0))
  | .range => range world.limits call
  | .len => answerValue (len heap (call.arg 0))
  | .push => push call
  | .pop => pop heap call
  | .remove => remove heap call
  | .indexOf => indexOf heap call
  | .hasIndex => hasIndex heap call
  | .indexes => indexes heap call
  | .values => values heap call
  | .join => join heap call
  | .split => split heap call
  | .upper => answerValue (onText Text.upper (call.arg 0))
  | .lower => answerValue (onText Text.lower (call.arg 0))
  | .abs => do
      let value ← call.number 0
      answer (.number value.abs)
  | .floor => do
      let value ← call.number 0
      answer (.number (Number.floor value))
  | .time => answer (.number world.elapsed)
  | .wait => withhold world.clock call
  | .yield => .ok { yields := true }
  | .listType => answerValue (.map world.core.list)
  | .textType => answerValue (.map world.core.text)
  | .numberType => answerValue (.map world.core.number)
  | .mapType => answerValue (.map world.core.map)
  | .functionType => answerValue (.map world.core.function)

/-- Carries out an effect. -/
def apply (effect : Effect) (world : World σ) : Reply × World σ :=
  let world := world.modifyHeap effect.change
  let world := match effect.line with
    | some line => world.print line
    | none => world
  match effect.deadline with
  | some deadline =>
      let ref := world.nextDeferred
      (⟨.pending ref, effect.yields⟩, world.addDeferred (some (.clock deadline)))
  | none =>
      let value := effect.answer.valueIn world.heap
      (⟨.ready value, effect.yields⟩, world.modifyHeap effect.answer.addTo)

/-- Carries out what has been decided. -/
def carryOut (world : World σ) : Except Fault Effect → Except RuntimeError Reply × World σ
  | .ok effect => (.ok (apply effect world).1, (apply effect world).2)
  | .error fault => (.error { fault }, world)

section Routines

variable {world : World σ} {call : Invocation}

/-- A check that fails does so before anything is changed. -/
theorem check_bind {α : Type} {found : Except Fault α} {next : α → Routine σ Reply}
    {decide : α → Except Fault Effect}
    (same : ∀ value, next value world = carryOut world (decide value)) :
    (Routine.check found >>= next) world = carryOut world (found >>= decide) := by
  cases found with
  | error fault => rfl
  | ok value => exact same value

theorem ite_same {test : Prop} [Decidable test] {yes no : Routine σ Reply}
    {accept reject : Except Fault Effect} (left : yes world = carryOut world accept)
    (right : no world = carryOut world reject) :
    (if test then yes else no) world = carryOut world (if test then accept else reject) := by
  split
  · exact left
  · exact right

theorem routine_range :
    Routine.range call world = carryOut world (range world.limits call) :=
  check_bind fun _ => check_bind fun _ => check_bind fun _ => ite_same rfl (ite_same rfl rfl)

theorem routine_push : Routine.push call world = carryOut world (push call) := by
  unfold Routine.push push
  cases call.arg 0 <;> rfl

theorem routine_pop : Routine.pop call world = carryOut world (pop world.heap call) := by
  unfold Routine.pop pop
  cases call.arg 0 with
  | map ref =>
      show (match world.heap.entries ref with
        | [] => _
        | entry :: _ => _ : Routine σ Reply) world = _
      dsimp only
      cases world.heap.entries ref <;> rfl
  | _ => rfl

theorem routine_remove :
    Routine.remove call world = carryOut world (remove world.heap call) := by
  unfold Routine.remove remove
  cases call.arg 0 with
  | list ref =>
      show (match keyPosition? (call.arg 1) (world.heap.items ref).size with
        | some position => _
        | none => _ : Routine σ Reply) world = _
      dsimp only
      cases keyPosition? (call.arg 1) (world.heap.items ref).size <;> rfl
  | _ => rfl

theorem routine_indexOf :
    Routine.indexOf call world = carryOut world (indexOf world.heap call) := by
  show (match call.arg 0 with
    | .list ref => _
    | .text text => _
    | .map ref => _
    | other => _ : Routine σ Reply) world = _
  unfold indexOf
  cases call.arg 0 with
  | list ref =>
      dsimp only
      cases (world.heap.items ref).findIdx? fun item => world.heap.equal item (call.arg 1) <;> rfl
  | text text =>
      dsimp only
      cases Text.find? (world.heap.display (call.arg 1)).toList text.toList <;> rfl
  | map ref =>
      dsimp only
      cases (world.heap.entries ref).find? fun entry =>
        world.heap.equal entry.value (call.arg 1) <;> rfl
  | _ => rfl

end Routines

/-- What a built-in function does step by step is what it could decide on before it does
anything. -/
theorem routine_eq (builtin : Builtin) (call : Invocation) (world : World σ) :
    routine builtin call world = carryOut world (effect world builtin call) := by
  cases builtin with
  | range => exact routine_range
  | push => exact routine_push
  | pop => exact routine_pop
  | remove => exact routine_remove
  | indexOf => exact routine_indexOf
  | hasIndex | indexes | values | join | split =>
      simp only [routine, Routine.hasIndex, Routine.indexes, Routine.values, Routine.join,
        Routine.split, effect, hasIndex, indexes, values, join, split]
      cases call.arg 0 <;> rfl
  | abs | floor => exact check_bind fun _ => rfl
  | wait => exact check_bind fun _ => rfl
  | _ => rfl

end Library

end MiniScript
