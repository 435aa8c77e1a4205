import MiniScript.Proofs.Evaluation.Instructions

/-!
# Conditions and loops of plain code

Where a statement leads depends on how it ends: it runs on, or goes to the start or
the end of the loop around it. The code of a loop follows the rounds of the loop, one
after the other.
-/

namespace MiniScript

open Compiler

namespace Setting

variable {σ α : Type} {setting : Setting σ} {position : Nat} {stack : List Value}
variable {loops : List LoopState}

/-- The code of the program has those instructions, from that position on. -/
def Holds (setting : Setting σ) (position : Nat) (instrs : List Instr) : Prop :=
  ∀ offset instr, instrs[offset]? = some instr → setting.Has (position + offset) instr

theorem holds_nil : setting.Holds position [] ↔ True :=
  ⟨fun _ => trivial, fun _ _ _ impossible => nomatch impossible⟩

theorem holds_append {left right : List Instr} :
    setting.Holds position (left ++ right) ↔
      setting.Holds position left ∧ setting.Holds (position + left.length) right := by
  constructor
  · intro held
    constructor
    · intro offset instr found
      refine held offset instr ?_
      obtain ⟨within, _⟩ := List.getElem?_eq_some_iff.mp found
      rw [List.getElem?_append_left within]
      exact found
    · intro offset instr found
      rw [Nat.add_assoc]
      refine held (left.length + offset) instr ?_
      rw [List.getElem?_append_right (Nat.le_add_right _ _), Nat.add_sub_cancel_left]
      exact found
  · rintro ⟨first, second⟩ offset instr found
    rcases Nat.lt_or_ge offset left.length with within | beyond
    · rw [List.getElem?_append_left within] at found
      exact first offset instr found
    · rw [List.getElem?_append_right beyond] at found
      have held := second (offset - left.length) instr found
      rw [Nat.add_assoc, Nat.add_sub_cancel' beyond] at held
      exact held

theorem holds_cons {instr : Instr} {rest : List Instr} :
    setting.Holds position (instr :: rest) ↔
      setting.Has position instr ∧ setting.Holds (position + 1) rest := by
  rw [← List.singleton_append, holds_append]
  refine and_congr_left fun _ => ⟨fun held => held 0 instr rfl, ?_⟩
  rintro held (_ | offset) other found
  · cases found
    exact held
  · cases found

/-- Instructions at the end that no evaluation notices. -/
theorem Follows.andThen {start : Point} {evaluation : Evaluation σ α} {finish final : α → Point}
    (first : setting.Follows start evaluation finish)
    (rest : ∀ value, setting.Follows (finish value) (pure ()) fun _ => final value) :
    setting.Follows start evaluation final := by
  rw [← bind_pure evaluation]
  exact first.bind fun value _ => (rest value).after (.ofPure rfl)

/-- The values of an operator that ends early and of one that does not. -/
theorem logicParts_values (op : LogicOp) :
    (logicParts op).2 = (.truth (Evaluation.decisive op), .truth (!Evaluation.decisive op)) := by
  cases op with
  | and => rfl
  | or => rfl

/-- An operator whose left operand can decide by itself. -/
theorem follows_logic (op : LogicOp) {first second : Evaluation σ Value}
    {leftEnd rightEnd shortAt : Nat}
    (left : setting.Follows ⟨position, stack, loops⟩ first
      fun value => ⟨leftEnd, value :: stack, loops⟩)
    (decides : setting.Has leftEnd (jumpTo (logicParts op).1 shortAt))
    (right : setting.Follows ⟨leftEnd + 1, stack, loops⟩ second
      fun value => ⟨rightEnd, value :: stack, loops⟩)
    (decidesToo : setting.Has rightEnd (jumpTo (logicParts op).1 shortAt))
    (full : setting.Has (rightEnd + 1) (pushValue (logicParts op).2.2))
    (skip : setting.Has (rightEnd + 1 + 1) (jumpTo .jump (shortAt + 1)))
    (short : setting.Has (rightEnd + 1 + 1 + 1) (pushValue (logicParts op).2.1))
    (place : shortAt = rightEnd + 1 + 1 + 1) :
    setting.Follows ⟨position, stack, loops⟩
      (do
        let value ← first
        let truthy ← .holds value
        if truthy = Evaluation.decisive op then return .truth truthy
        else
          let other ← second
          let truthy ← .holds other
          return .truth truthy)
      fun value => ⟨rightEnd + 4, value :: stack, loops⟩ := by
  subst place
  rw [logicParts_values] at full short
  refine left.bind fun value _ => ?_
  refine (follows_decide op value decides).bind fun truthy _ => ?_
  by_cases sure : truthy = Evaluation.decisive op
  · rw [if_pos sure, if_pos sure, sure]
    exact follows_literal _ short
  · rw [if_neg sure, if_neg sure]
    refine right.bind fun other _ => ?_
    refine (follows_decide op other decidesToo).bind fun outcome _ => ?_
    by_cases same : outcome = Evaluation.decisive op
    · rw [if_pos same, same]
      exact follows_literal _ short
    · rw [if_neg same, Bool.eq_not_of_ne same]
      exact (follows_pushValue _ full).after ((follows_jump skip).after (.ofPure rfl))

/-- Where a statement leads, by the way it ends. Without a loop around it only the end of the code
would be left. -/
def leave (setting : Setting σ) (loop : Option LoopPlace) (after : Nat) (stack : List Value)
    (loops : List LoopState) : Signal → Point
  | .normal => ⟨after, stack, loops⟩
  | .broke =>
      match loop, loops with
      | some (.whileLoop _ stop), loops => ⟨stop, stack, loops⟩
      | some (.forLoop _), running :: rest => ⟨running.exit, stack, rest⟩
      | _, loops => ⟨setting.code.size, stack, loops⟩
  | .continued =>
      match loop, loops with
      | some (.whileLoop start _), loops => ⟨start, stack, loops⟩
      | some (.forLoop _), running :: rest => ⟨running.start, stack, running :: rest⟩
      | _, loops => ⟨setting.code.size, stack, loops⟩

/-- The `for` loop around a statement is the innermost one that is running. -/
def Inside : Option LoopPlace → List LoopState → Prop
  | some (.forLoop id), loops =>
      ∃ running rest, loops = running :: rest ∧ running.id = id ∧ id < UInt32.size ∧
        ∀ other ∈ rest, other.id ≠ id
  | _, _ => True

/-- The end of a statement that runs on. -/
theorem Follows.normally {start : Point} {evaluation : Evaluation σ α} {loop : Option LoopPlace}
    {after : Nat} (inner : setting.Follows start evaluation fun _ => ⟨after, stack, loops⟩) :
    setting.Follows start
      (do
        let _ ← evaluation
        return .normal)
      (setting.leave loop after stack loops) :=
  inner.bind fun _ _ => .ofPure rfl

/-- A store to a member or an index, once its base and key are operands. -/
theorem follows_assignAt (ignores : setting.host.IgnoresClock) (op : Option BinaryOp)
    (subject key : Value) {value : Evaluation σ Value} {valueEnd : Nat}
    (prepared : setting.Holds position (beforeStore op))
    (operand : ∀ operands, setting.Follows ⟨position + (beforeStore op).length, operands, loops⟩
      value fun value => ⟨valueEnd, value :: operands, loops⟩)
    (combined : setting.Holds valueEnd (combine op))
    (stored : setting.Has (valueEnd + (combine op).length) { op := .assignIndex }) :
    setting.Follows ⟨position, key :: subject :: stack, loops⟩
      (.assignAt setting.host op subject key value)
      fun _ => ⟨valueEnd + (combine op).length + 1, stack, loops⟩ := by
  cases op with
  | none =>
      refine (operand (key :: subject :: stack)).bind fun new _ => ?_
      exact follows_assignIndex ignores subject key new stored
  | some op =>
      simp only [beforeStore, combine, holds_cons, holds_nil, and_true] at prepared combined
      refine (follows_dup2 key subject prepared.1).after ?_
      refine (follows_callIndex subject key prepared.2).bind fun old _ => ?_
      refine (operand (old :: key :: subject :: stack)).bind fun given _ => ?_
      refine (follows_binary op old given combined).bind fun new _ => ?_
      exact follows_assignIndex ignores subject key new stored

variable {condition : Evaluation σ Bool} {body other : Evaluation σ Signal}
variable {bodyAt bodyEnd stop : Nat} {loop : Option LoopPlace}

/-- A branch that is skipped when the value above it does not hold. -/
theorem follows_ifThen (value : Value) (test : setting.Has position (jumpTo .jumpIfFalse stop))
    (inner : setting.Follows ⟨position + 1, stack, loops⟩ body
      (setting.leave loop stop stack loops)) :
    setting.Follows ⟨position, value :: stack, loops⟩
      (do
        if ← .holds value then body else return .normal)
      (setting.leave loop stop stack loops) := by
  refine (follows_jumpIfFalse value test).bind fun truthy _ => ?_
  cases truthy with
  | true => exact inner
  | false => exact .ofPure rfl

/-- Two branches; the first jumps over the second when it has come to its end. -/
theorem follows_ifElse (value : Value) {elseAt : Nat}
    (test : setting.Has position (jumpTo .jumpIfFalse elseAt))
    (inner : setting.Follows ⟨position + 1, stack, loops⟩ body
      (setting.leave loop bodyEnd stack loops))
    (skip : setting.Has bodyEnd (jumpTo .jump stop))
    (rest : setting.Follows ⟨elseAt, stack, loops⟩ other (setting.leave loop stop stack loops)) :
    setting.Follows ⟨position, value :: stack, loops⟩
      (do
        if ← .holds value then body else other)
      (setting.leave loop stop stack loops) := by
  refine (follows_jumpIfFalse value test).bind fun truthy _ => ?_
  cases truthy with
  | true =>
      refine inner.andThen fun signal => ?_
      cases signal with
      | normal => exact follows_jump skip
      | broke => exact .ofPure rfl
      | continued => exact .ofPure rfl
  | false => exact rest

/-- Round by round. -/
theorem follows_repeatWhile
    (test : setting.Follows ⟨position, stack, loops⟩ condition
      fun truthy => ⟨if truthy then bodyAt else stop, stack, loops⟩)
    (inner : setting.Follows ⟨bodyAt, stack, loops⟩ body
      (setting.leave (some (.whileLoop position stop)) bodyEnd stack loops))
    (back : setting.Has bodyEnd (jumpTo .jump position)) (rounds : Nat) :
    setting.Follows ⟨position, stack, loops⟩ (.repeatWhile condition body rounds)
      fun _ => ⟨stop, stack, loops⟩ := by
  induction rounds with
  | zero => exact .outside
  | succ rounds ih =>
      refine test.bind fun truthy _ => ?_
      cases truthy with
      | false => exact .ofPure rfl
      | true =>
          refine inner.bind fun signal _ => ?_
          cases signal with
          | normal => exact (follows_jump back).after ih
          | broke => exact .ofPure rfl
          | continued => exact ih

/-- Item by item. -/
theorem follows_forEach {id : Nat} (ignores : setting.host.IgnoresClock) (small : id < UInt32.size)
    (apart : ∀ running ∈ loops, running.id ≠ id) {var : String} {source : Option MapRef}
    (inner : ∀ running : LoopState, running.id = id → running.start = position →
      running.exit = stop → setting.Follows ⟨position + 1, stack, running :: loops⟩ body
        (setting.leave (some (.forLoop id)) bodyEnd stack (running :: loops)))
    (fetched : setting.Has position
      { op := .iterateForLoop, first := .int id, second := .addr stop })
    (back : setting.Has bodyEnd (jumpTo .jump position)) (remaining : List Value)
    (running : LoopState) (number : running.id = id) (name : running.var = var)
    (origin : running.source = source)
    (left : running.items.toList.drop running.index = remaining) :
    setting.Follows ⟨position, stack, running :: loops⟩
      (.forEach (.bindItem setting.host setting.scope var source) body remaining)
      fun _ => ⟨stop, stack, loops⟩ := by
  induction remaining generalizing running with
  | nil =>
      subst number
      refine follows_iterate_end small apart ?_ fetched
      rw [← Array.getElem?_toList]
      exact List.getElem?_eq_none (List.drop_eq_nil_iff.mp left)
  | cons item rest ih =>
      subst number name origin
      have present : running.items[running.index]? = some item := by
        rw [← Array.getElem?_toList, ← List.head?_drop, left]
        rfl
      have fewer : running.items.toList.drop (running.index + 1) = rest := by
        rw [← List.tail_drop, left]
        rfl
      refine (follows_iterate_next ignores small apart present fetched).bind fun _ _ => ?_
      let turned := { running with start := position, exit := stop, index := running.index + 1 }
      refine (inner turned rfl rfl rfl).bind fun signal _ => ?_
      cases signal with
      | normal => exact (follows_jump back).after (ih turned rfl rfl rfl fewer)
      | broke => exact .ofPure rfl
      | continued => exact ih turned rfl rfl rfl fewer

end Setting

end MiniScript
