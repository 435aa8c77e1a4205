import MiniScript.Proofs.Evaluation.Following
import MiniScript.Proofs.Machine.Plan

/-!
# The instructions of plain code

Each instruction that the compiler writes for the plain part of the language follows
one operation of an evaluation: it takes its operands from the stack and goes on with
the result.
-/

namespace MiniScript

open Compiler

namespace Setting

variable {σ α β : Type} {setting : Setting σ} {start : Point} {instr : Instr}
variable {evaluation : Evaluation σ α} {finish : α → Point}
variable {position target : Nat} {stack : List Value} {loops : List LoopState}

/-- An instruction that only moves operands or jumps. -/
theorem Follows.ofMove {value : α} (fetched : setting.code.instrs[start.position]? = some instr)
    (planned : ∀ world : World σ,
      Machine.plan world (setting.machine { start with position := start.position + 1 })
        start.position instr = .ok (.proceed (setting.machine (finish value)))) :
    setting.Follows start (pure value) finish := by
  refine .single fetched fun world result after comes clock => ?_
  obtain ⟨rfl, rfl⟩ := Evaluation.comes_pure.mp comes
  refine ⟨clock, ?_⟩
  rw [execute, Machine.execute_eq, planned]
  rfl

/-- An instruction that only looks at the world. -/
theorem Follows.ofRead {read : World σ → Except Fault α}
    (fetched : setting.code.instrs[start.position]? = some instr)
    (planned : ∀ world : World σ,
      Machine.plan world (setting.machine { start with position := start.position + 1 })
        start.position instr =
          Machine.orFault (read world) >>= fun value =>
            .ok (.proceed (setting.machine (finish value))))
    (timeless : ∀ world clock, read (world.setClock clock) = read world) :
    setting.Follows start (.consult read) finish := by
  rw [← bind_pure (Evaluation.consult read)]
  exact .ofPlan fetched planned timeless fun value => .proceed

/-- An instruction that produces a value from what it finds in the world. -/
theorem Follows.ofDraft {read : World σ → Except Fault Draft}
    (fetched : setting.code.instrs[start.position]? = some instr)
    (planned : ∀ world : World σ,
      Machine.plan world (setting.machine { start with position := start.position + 1 })
        start.position instr =
          Machine.orFault (read world) >>= fun draft =>
            .ok (.produce (setting.machine ⟨position, stack, loops⟩) draft))
    (timeless : ∀ world clock, read (world.setClock clock) = read world) :
    setting.Follows start (.consult read >>= .place)
      fun value => ⟨position, value :: stack, loops⟩ :=
  .ofPlan fetched planned timeless fun draft => .produce draft

/-- An instruction that calls what it finds in the world. -/
theorem Follows.ofCall {read : World σ → Except Fault α} {value : α → Value}
    {receiver : Option Value} {owner : α → Option MapRef}
    (fetched : setting.code.instrs[start.position]? = some instr)
    (planned : ∀ world : World σ,
      Machine.plan world (setting.machine { start with position := start.position + 1 })
        start.position instr =
          Machine.orFault (read world) >>= fun found =>
            .ok (.call (setting.machine ⟨position, stack, loops⟩) (value found) [] receiver
              (owner found)))
    (timeless : ∀ world clock, read (world.setClock clock) = read world) :
    setting.Follows start (.consult read >>= fun found => .plain (value found))
      fun value => ⟨position, value :: stack, loops⟩ :=
  .ofPlan fetched planned timeless fun found => .call (value found) receiver (owner found)

/-- An instruction that stores in a map it finds in the world. -/
theorem Follows.ofStore (ignores : setting.host.IgnoresClock)
    {read : World σ → Except Fault (MapRef × Draft)} {point : Point} {key : Value}
    (fetched : setting.code.instrs[start.position]? = some instr)
    (planned : ∀ world : World σ,
      Machine.plan world (setting.machine { start with position := start.position + 1 })
        start.position instr =
          Machine.orFault (read world) >>= fun found =>
            .ok (.store (setting.machine point) found.1 key found.2))
    (timeless : ∀ world clock, read (world.setClock clock) = read world) :
    setting.Follows start
      (do
        let found ← .consult read
        let value ← .place found.2
        .store setting.host found.1 key value) fun _ => point :=
  .ofPlan fetched planned timeless fun found => .store ignores point found.1 key found.2

/-- The code of the program has that instruction. -/
abbrev Has (setting : Setting σ) (position : Nat) (instr : Instr) : Prop :=
  setting.code.instrs[position]? = some instr

theorem follows_pushValue (value : Value) (fetched : setting.Has position (pushValue value)) :
    setting.Follows ⟨position, stack, loops⟩ (pure ())
      fun _ => ⟨position + 1, value :: stack, loops⟩ :=
  .ofMove fetched fun _ => rfl

/-- A literal. -/
theorem follows_literal (value : Value) (fetched : setting.Has position (pushValue value)) :
    setting.Follows ⟨position, stack, loops⟩ (pure value)
      fun value => ⟨position + 1, value :: stack, loops⟩ :=
  .ofMove fetched fun _ => rfl

/-- A jump, which no evaluation notices. -/
theorem follows_jump (fetched : setting.Has position (jumpTo .jump target)) :
    setting.Follows ⟨position, stack, loops⟩ (pure ()) fun _ => ⟨target, stack, loops⟩ :=
  .ofMove fetched fun _ => rfl

theorem follows_pop (value : Value) (fetched : setting.Has position { op := .pop }) :
    setting.Follows ⟨position, value :: stack, loops⟩ (pure ())
      fun _ => ⟨position + 1, stack, loops⟩ :=
  .ofMove fetched fun _ => rfl

theorem follows_dup2 (top below : Value) (fetched : setting.Has position { op := .dup2 }) :
    setting.Follows ⟨position, top :: below :: stack, loops⟩ (pure ())
      fun _ => ⟨position + 1, top :: below :: top :: below :: stack, loops⟩ :=
  .ofMove fetched fun _ => rfl

/-- A conditional jump takes the value that it tests. -/
theorem follows_jumpIfFalse (value : Value)
    (fetched : setting.Has position (jumpTo .jumpIfFalse target)) :
    setting.Follows ⟨position, value :: stack, loops⟩ (.holds value)
      fun truthy => ⟨if truthy then position + 1 else target, stack, loops⟩ := by
  refine .ofRead fetched (fun world => ?_) fun _ _ => rfl
  cases truthy : world.heap.isTruthy value with
  | true => exact if_pos truthy
  | false => exact if_neg (Bool.eq_false_iff.mp truthy)

/-- The jump that ends an operator early. -/
theorem follows_decide (op : LogicOp) (value : Value)
    (fetched : setting.Has position (jumpTo (logicParts op).1 target)) :
    setting.Follows ⟨position, value :: stack, loops⟩ (.holds value) fun truthy =>
      ⟨if truthy = Evaluation.decisive op then target else position + 1, stack, loops⟩ := by
  refine .ofRead fetched (fun world => ?_) fun _ _ => rfl
  cases op with
  | and =>
      cases truthy : world.heap.isTruthy value with
      | true => exact if_pos truthy
      | false => exact if_neg (Bool.eq_false_iff.mp truthy)
  | or =>
      cases truthy : world.heap.isTruthy value with
      | true => exact if_pos truthy
      | false => exact if_neg (Bool.eq_false_iff.mp truthy)

theorem follows_name (name : String) (fetched : setting.Has position (nameInstr .invoke name)) :
    setting.Follows ⟨position, stack, loops⟩ (.lookUp setting.scope name)
      fun value => ⟨position + 1, value :: stack, loops⟩ := by
  unfold nameInstr at fetched
  unfold Evaluation.lookUp
  cases known : ScopeKind.ofName? name with
  | some kind =>
      rw [known] at fetched
      exact .ofRead fetched (fun _ => rfl) fun _ _ => rfl
  | none =>
      rw [known] at fetched
      exact .ofCall fetched (fun _ => rfl) fun _ _ => rfl

theorem follows_receiver
    (fetched : setting.Has position { op := .loadVar, first := .name selfName }) :
    setting.Follows ⟨position, stack, loops⟩ (.receiver setting.scope)
      fun value => ⟨position + 1, value :: stack, loops⟩ := by
  refine .ofRead fetched (fun world => ?_) fun _ _ => rfl
  have loaded : Machine.loadVariable world setting.scope selfName =
      .ok ((world.resolve? setting.scope selfName).getD .null) := by
    unfold Machine.loadVariable
    cases world.resolve? setting.scope selfName with
    | some value => rfl
    | none => rfl
  rw [← loaded]
  rfl

theorem follows_callIndex (subject key : Value)
    (fetched : setting.Has position (withCount .callIndex 0)) :
    setting.Follows ⟨position, key :: subject :: stack, loops⟩ (.memberOf subject key)
      fun value => ⟨position + 1, value :: stack, loops⟩ :=
  .ofCall fetched (fun _ => rfl) fun _ _ => rfl

theorem follows_binary (op : BinaryOp) (left right : Value)
    (fetched : setting.Has position { op := .binary, first := .op op }) :
    setting.Follows ⟨position, right :: left :: stack, loops⟩ (.binary op left right)
      fun value => ⟨position + 1, value :: stack, loops⟩ :=
  .ofDraft fetched (fun _ => rfl) fun _ _ => rfl

/-- The right operand stays below the result. -/
theorem follows_compareKeep (op : BinaryOp) (left right : Value)
    (fetched : setting.Has position { op := .compareKeep, first := .op op }) :
    setting.Follows ⟨position, right :: left :: stack, loops⟩ (.binary op left right)
      fun value => ⟨position + 1, value :: right :: stack, loops⟩ :=
  .ofDraft fetched (fun _ => rfl) fun _ _ => rfl

theorem follows_unary (op : UnaryOp) (value : Value)
    (fetched : setting.Has position { op := unaryOpcode op }) :
    setting.Follows ⟨position, value :: stack, loops⟩ (.unary op value)
      fun value => ⟨position + 1, value :: stack, loops⟩ := by
  cases op with
  | neg => exact .ofRead fetched (fun _ => rfl) fun _ _ => rfl
  | not => exact .ofRead fetched (fun _ => rfl) fun _ _ => rfl
  | new => exact .ofDraft fetched (fun _ => rfl) fun _ _ => rfl

theorem follows_slice (subject first last : Value)
    (fetched : setting.Has position { op := .slice }) :
    setting.Follows ⟨position, last :: first :: subject :: stack, loops⟩
      (.consult (fun world => Operator.slice world.heap subject first last) >>= .place)
      fun value => ⟨position + 1, value :: stack, loops⟩ :=
  .ofDraft fetched (fun _ => rfl) fun _ _ => rfl

/-- Operands are found in the order in which they were pushed. -/
theorem popMany_reverse {machine : Machine} {values : List Value}
    (pushed : machine.stack = values.reverse ++ stack) :
    machine.popMany values.length = .ok (values, { machine with stack }) := by
  have enough : ¬ machine.stack.length < values.length := by
    rw [pushed, List.length_append, List.length_reverse]
    omega
  have taken : machine.stack.take values.length = values.reverse := by
    rw [pushed, ← List.length_reverse, List.take_left]
  have left : machine.stack.drop values.length = stack := by
    rw [pushed, ← List.length_reverse, List.drop_left]
  rw [Machine.popMany, Machine.popMany?, if_neg enough, taken, left, List.reverse_reverse]

theorem follows_buildList (values : List Value)
    (fetched : setting.Has position (withCount .buildList values.length)) :
    setting.Follows ⟨position, values.reverse ++ stack, loops⟩ (.place (.list values.toArray))
      fun value => ⟨position + 1, value :: stack, loops⟩ := by
  have follows : setting.Follows ⟨position, values.reverse ++ stack, loops⟩
      (.consult (fun _ => .ok (.list values.toArray)) >>= .place)
      fun value => ⟨position + 1, value :: stack, loops⟩ := by
    refine .ofDraft fetched (fun world => ?_) fun _ _ => rfl
    have popped : (setting.machine ⟨position + 1, values.reverse ++ stack, loops⟩).popMany
        values.length = .ok (values, setting.machine ⟨position + 1, stack, loops⟩) :=
      popMany_reverse rfl
    exact congrArg (· >>= fun popped => .ok (Action.produce popped.2 (.list popped.1.toArray)))
      popped
  exact follows

/-- Keys and values in turn, as they are pushed. -/
def flatten (pairs : List (Value × Value)) : List Value :=
  pairs.flatMap fun pair => [pair.1, pair.2]

theorem flatten_cons (pair : Value × Value) (rest : List (Value × Value)) :
    flatten (pair :: rest) = [pair.1, pair.2] ++ flatten rest :=
  List.flatMap_cons

theorem flatten_length (pairs : List (Value × Value)) :
    (flatten pairs).length = pairs.length * 2 := by
  induction pairs with
  | nil => rfl
  | cons pair rest ih =>
      rw [List.length_cons, Nat.succ_mul, ← ih]
      rfl

theorem pairUp_flatten (pairs : List (Value × Value)) :
    Machine.pairUp (flatten pairs) = pairs := by
  induction pairs with
  | nil => rfl
  | cons pair rest ih => exact congrArg (pair :: ·) ih

theorem follows_buildMap (pairs : List (Value × Value))
    (fetched : setting.Has position (withCount .buildMap pairs.length)) :
    setting.Follows ⟨position, (flatten pairs).reverse ++ stack, loops⟩
      (.consult (fun world => .ok (.map { entries := world.heap.withEntries [] pairs })) >>=
        .place)
      fun value => ⟨position + 1, value :: stack, loops⟩ := by
  refine .ofDraft fetched (fun world => ?_) fun _ _ => rfl
  have popped : (setting.machine ⟨position + 1, (flatten pairs).reverse ++ stack, loops⟩).popMany
      (pairs.length * 2) = .ok (flatten pairs, setting.machine ⟨position + 1, stack, loops⟩) := by
    rw [← flatten_length]
    exact popMany_reverse rfl
  refine (congrArg (· >>= fun popped => .ok (Action.produce popped.2
    (.map { entries := world.heap.withEntries [] (Machine.pairUp popped.1) }))) popped).trans ?_
  exact congrArg (fun pairs => Except.ok (Action.produce
    (setting.machine ⟨position + 1, stack, loops⟩)
    (.map { entries := world.heap.withEntries [] pairs }))) (pairUp_flatten pairs)

/-- A store by key or position takes the value, the key and what is stored into. -/
theorem follows_assignIndex (ignores : setting.host.IgnoresClock) (subject key value : Value)
    (fetched : setting.Has position { op := .assignIndex }) :
    setting.Follows ⟨position, value :: key :: subject :: stack, loops⟩
      (.assignIndex setting.host subject key value) fun _ => ⟨position + 1, stack, loops⟩ := by
  have refused (fault : Fault) (planned : ∀ world : World σ,
      Machine.plan world
        (setting.machine ⟨position + 1, value :: key :: subject :: stack, loops⟩) position
          { op := .assignIndex } = .error (.runtime { fault })) :
      setting.Follows ⟨position, value :: key :: subject :: stack, loops⟩
        (.consult fun _ => .error fault) fun (_ : Unit) => ⟨position + 1, stack, loops⟩ :=
    .ofRead fetched planned fun _ _ => rfl
  cases subject with
  | map map =>
      have follows : setting.Follows ⟨position, value :: key :: .map map :: stack, loops⟩
          (do
            let found ← .consult fun _ => .ok (map, .plain value)
            let value ← .place found.2
            .store setting.host found.1 key value) fun _ => ⟨position + 1, stack, loops⟩ :=
        .ofStore ignores fetched (fun _ => rfl) fun _ _ => rfl
      exact follows
  | list list =>
      cases key with
      | number index =>
          have performs (place : Nat) : setting.Performs
              (.replaceItem (setting.machine ⟨position + 1, stack, loops⟩) list place value)
              (.replaceItem list place value) fun _ => ⟨position + 1, stack, loops⟩ :=
            .replaceItem _ list place value
          refine .ofPlan fetched (fun world => ?_) (fun _ _ => rfl) performs
          have planned : Machine.plan world (setting.machine
              ⟨position + 1, value :: .number index :: .list list :: stack, loops⟩) position
              { op := .assignIndex } =
              Machine.orFault (Sequence.position index (world.heap.items list).size >>=
                fun place => .ok (Action.replaceItem
                  (setting.machine ⟨position + 1, stack, loops⟩) list place value)) := rfl
          refine planned.trans ?_
          cases Sequence.position index (world.heap.items list).size with
          | error fault => rfl
          | ok place => rfl
      | _ => exact refused _ fun _ => rfl
  | text text => exact refused _ fun _ => rfl
  | _ => exact refused _ fun _ => rfl

theorem follows_assignVar (ignores : setting.host.IgnoresClock) (name : String) (value : Value)
    (fetched : setting.Has position { op := .assignVar, first := .name name }) :
    setting.Follows ⟨position, value :: stack, loops⟩
      (.assignVar setting.host setting.scope name value)
      fun _ => ⟨position + 1, stack, loops⟩ := by
  have follows : setting.Follows ⟨position, value :: stack, loops⟩
      (do
        let found ← .consult fun world => .ok (world.heap.vars setting.scope, .plain value)
        let value ← .place found.2
        .store setting.host found.1 (.text name) value) fun _ => ⟨position + 1, stack, loops⟩ :=
    .ofStore ignores fetched (fun _ => rfl) fun _ _ => rfl
  exact follows

variable {id : Nat} {loop : LoopState}

theorem filter_of_apart (apart : ∀ running ∈ loops, running.id ≠ id) :
    loops.filter (fun running => running.id != id) = loops :=
  List.filter_eq_self.mpr fun running member => bne_iff_ne.mpr (apart running member)

theorem filter_cons_of_apart (apart : ∀ running ∈ loops, running.id ≠ loop.id) :
    (loop :: loops).filter (fun running => running.id != loop.id) = loops := by
  rw [List.filter_cons_of_neg (by simp), filter_of_apart apart]

theorem loop?_head (point : Point) (same : point.loops = loop :: loops) :
    (setting.machine point).frame.loop? loop.id = some loop := by
  dsimp only [machine, Frame.loop?]
  rw [same]
  exact List.find?_cons_of_pos (beq_self_eq_true loop.id)

/-- A loop begins; no other loop has its number. -/
theorem follows_create (var : String) (subject : Value) (small : id < UInt32.size)
    (apart : ∀ running ∈ loops, running.id ≠ id)
    (fetched : setting.Has position
      { op := .createForLoop, first := .int id, second := .name var }) :
    setting.Follows ⟨position, subject :: stack, loops⟩
      (.consult fun world => Machine.loopItems world.heap subject)
      fun visited => ⟨position + 1, stack,
        { id, var, items := visited.1, source := visited.2 } :: loops⟩ := by
  refine .ofRead fetched (fun world => ?_) fun _ _ => rfl
  rw [Machine.plan_create var small rfl]
  unfold Frame.putLoop Frame.dropLoop
  dsimp only [machine]
  rw [filter_of_apart apart]

/-- The items of a loop have run out. -/
theorem follows_iterate_end (small : loop.id < UInt32.size)
    (apart : ∀ running ∈ loops, running.id ≠ loop.id) (ended : loop.items[loop.index]? = none)
    (fetched : setting.Has position
      { op := .iterateForLoop, first := .int loop.id, second := .addr target }) :
    setting.Follows ⟨position, stack, loop :: loops⟩ (pure ()) fun _ => ⟨target, stack, loops⟩ := by
  refine .ofMove fetched fun world => ?_
  rw [Machine.plan_iterate small (loop?_head _ rfl), Machine.planTurn, ended]
  unfold Frame.dropLoop
  dsimp only [machine]
  rw [filter_cons_of_apart apart]

/-- The next turn of a loop. -/
theorem follows_iterate_next (ignores : setting.host.IgnoresClock) (small : loop.id < UInt32.size)
    (apart : ∀ running ∈ loops, running.id ≠ loop.id) {item : Value}
    (present : loop.items[loop.index]? = some item)
    (fetched : setting.Has position
      { op := .iterateForLoop, first := .int loop.id, second := .addr target }) :
    setting.Follows ⟨position, stack, loop :: loops⟩
      (.bindItem setting.host setting.scope loop.var loop.source item)
      fun _ => ⟨position + 1, stack,
        { loop with start := position, exit := target, index := loop.index + 1 } :: loops⟩ := by
  have follows : setting.Follows ⟨position, stack, loop :: loops⟩
      (do
        let found ← .consult fun world =>
          .ok (world.heap.vars setting.scope, Machine.loopValue world.heap loop.source item)
        let value ← .place found.2
        .store setting.host found.1 (.text loop.var) value)
      fun _ => ⟨position + 1, stack,
        { loop with start := position, exit := target, index := loop.index + 1 } :: loops⟩ := by
    refine .ofStore ignores fetched (fun world => ?_) fun _ _ => rfl
    rw [Machine.plan_iterate small (loop?_head _ rfl), Machine.planTurn, present]
    unfold Frame.putLoop Frame.dropLoop
    dsimp only [machine]
    rw [filter_cons_of_apart apart]
    rfl
  exact follows

theorem follows_break (small : loop.id < UInt32.size)
    (apart : ∀ running ∈ loops, running.id ≠ loop.id)
    (fetched : setting.Has position (withCount .breakForLoop loop.id)) :
    setting.Follows ⟨position, stack, loop :: loops⟩ (pure ())
      fun _ => ⟨loop.exit, stack, loops⟩ := by
  refine .ofMove fetched fun world => ?_
  rw [Machine.plan_break small (loop?_head _ rfl)]
  unfold Frame.dropLoop
  dsimp only [machine]
  rw [filter_cons_of_apart apart]

theorem follows_continue (small : loop.id < UInt32.size)
    (fetched : setting.Has position (withCount .continueForLoop loop.id)) :
    setting.Follows ⟨position, stack, loop :: loops⟩ (pure ())
      fun _ => ⟨loop.start, stack, loop :: loops⟩ := by
  refine .ofMove fetched fun world => ?_
  rw [Machine.plan_continue small (loop?_head _ rfl)]
  rfl

end Setting

end MiniScript
