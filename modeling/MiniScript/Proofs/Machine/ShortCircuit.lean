import MiniScript.Proofs.Machine.Tenure

/-!
# Operators that may end early

In the code of every compiled body, whatever the operands do, the right operand of a
logic operator is entered only where the left one has not decided the result, and a
chain of comparisons goes through its operands in order and ends at the first link
that fails. Either leaves one operand, its result, as long as the functions that the
operands call are compiled: one from elsewhere may take or leave operands as it likes.
-/

namespace MiniScript

open Compiler

namespace LogicOp

/-- The truth table. -/
def holds : LogicOp → Bool → Bool → Bool
  | .and, left, right => left && right
  | .or, left, right => left || right

/-- What the left operand has to be for the right one to be entered. -/
def asks : LogicOp → Bool
  | .and => true
  | .or => false

theorem holds_of_asked (op : LogicOp) (right : Bool) : op.holds op.asks right = right := by
  cases op with
  | and => exact Bool.true_and right
  | or => exact Bool.false_or right

theorem holds_of_decided (op : LogicOp) {left : Bool} (decided : left = !op.asks) (right : Bool) :
    op.holds left right = !op.asks := by
  subst decided
  cases op with
  | and => exact Bool.false_and right
  | or => exact Bool.true_or right

end LogicOp

theorem Compiler.logicParts_values (op : LogicOp) :
    (logicParts op).2 = (.truth !op.asks, .truth op.asks) := by
  cases op with
  | and => rfl
  | or => rfl

theorem Compiler.logicParts_asks (op : LogicOp) :
    (logicParts op).1 = .jumpIfFalse ∧ (!op.asks) = false ∨
      (logicParts op).1 = .jumpIfTrue ∧ (!op.asks) = true := by
  cases op with
  | and => exact Or.inl ⟨rfl, rfl⟩
  | or => exact Or.inr ⟨rfl, rfl⟩

/-- The code of a logic operator: its operands, each with a conditional jump behind it, and the two
results. -/
theorem Compiler.WritesExpr.logicParts {sourceName : Option String} {place : Nat}
    {left right : Expr} {op : LogicOp} {span : Span} {id : NodeId} {part : List Instr}
    (writes : WritesExpr sourceName place (.logic left op span id right) part) :
    ∃ first second shortAt, WritesExpr sourceName place left first ∧
      WritesExpr sourceName (place + first.length + 1) right second ∧
      shortAt = place + first.length + second.length + 4 ∧
      part = first ++ jumpTo (Compiler.logicParts op).1 shortAt ::
        (second ++ [jumpTo (Compiler.logicParts op).1 shortAt, pushValue (.truth op.asks),
          jumpTo .jump (shortAt + 1), pushValue (.truth !op.asks)]) := by
  obtain ⟨mode, _, _, ran⟩ := writes
  simp only [layExpr, logicParts_values, yields_bind, yields_pure] at ran
  obtain ⟨first, _, ranLeft, second, _, ranRight, rfl, rfl⟩ := ran
  refine ⟨first, second, _, ⟨_, _, _, ranLeft⟩, ⟨_, _, _, ranRight⟩, rfl, ?_⟩
  simp only [List.append_assoc, List.cons_append, List.nil_append]

namespace Visit.LeadsTo

variable {σ : Type} {visit : Visit σ} {position target : Nat} {value : Value}
variable {stack below : List Value}

theorem pushed (leads : visit.LeadsTo position stack)
    (found : visit.machine.frame.code.instrs[visit.position]? = some (pushValue value)) :
    position = visit.position + 1 ∧ stack = value :: visit.stack := by
  obtain ⟨action, planned, _, rfl, leaves⟩ := leads.planned found
  cases planned
  exact ⟨rfl, leaves⟩

theorem jumped (leads : visit.LeadsTo position stack)
    (found : visit.machine.frame.code.instrs[visit.position]? = some (jumpTo .jump target)) :
    position = target ∧ stack = visit.stack := by
  obtain ⟨action, planned, _, rfl, leaves⟩ := leads.planned found
  cases planned
  exact ⟨rfl, leaves⟩

theorem popped (leads : visit.LeadsTo position stack)
    (found : visit.machine.frame.code.instrs[visit.position]? = some { op := .pop })
    (held : visit.stack = value :: below) : position = visit.position + 1 ∧ stack = below := by
  obtain ⟨⟨frame, callers, _, status, yields, native⟩, world⟩ := visit
  subst held
  obtain ⟨action, planned, _, rfl, leaves⟩ := leads.planned found
  cases planned
  exact ⟨rfl, leaves⟩

/-- A conditional jump is taken if its operand is as it says. -/
theorem branched {op : Opcode} {taken : Bool} (leads : visit.LeadsTo position stack)
    (branches : op = .jumpIfFalse ∧ taken = false ∨ op = .jumpIfTrue ∧ taken = true)
    (found : visit.machine.frame.code.instrs[visit.position]? = some (jumpTo op target))
    (held : visit.stack = value :: below) :
    stack = below ∧ (visit.world.heap.isTruthy value = taken ∧ position = target ∨
      visit.world.heap.isTruthy value = (!taken) ∧ position = visit.position + 1) := by
  obtain ⟨⟨frame, callers, _, status, yields, native⟩, world⟩ := visit
  subst held
  obtain ⟨action, planned, _, rfl, leaves⟩ := leads.planned found
  rcases branches with ⟨rfl, rfl⟩ | ⟨rfl, rfl⟩
  · cases truthy : world.heap.isTruthy value with
    | true =>
        cases planned.symm.trans (if_pos truthy)
        exact ⟨leaves, Or.inr ⟨rfl, rfl⟩⟩
    | false =>
        cases planned.symm.trans (if_neg (Bool.eq_false_iff.mp truthy))
        exact ⟨leaves, Or.inl ⟨rfl, rfl⟩⟩
  · cases truthy : world.heap.isTruthy value with
    | true =>
        cases planned.symm.trans (if_pos truthy)
        exact ⟨leaves, Or.inl ⟨rfl, rfl⟩⟩
    | false =>
        cases planned.symm.trans (if_neg (Bool.eq_false_iff.mp truthy))
        exact ⟨leaves, Or.inr ⟨rfl, rfl⟩⟩

/-- A conditional jump has an operand to look at. -/
theorem operand {op : Opcode} {taken : Bool} (leads : visit.LeadsTo position stack)
    (branches : op = .jumpIfFalse ∧ taken = false ∨ op = .jumpIfTrue ∧ taken = true)
    (found : visit.machine.frame.code.instrs[visit.position]? = some (jumpTo op target)) :
    ∃ value below, visit.stack = value :: below := by
  obtain ⟨⟨frame, callers, operands, status, yields, native⟩, world⟩ := visit
  cases operands with
  | cons value below => exact ⟨value, below, rfl⟩
  | nil =>
      obtain ⟨action, planned, _⟩ := leads.planned found
      rcases branches with ⟨rfl, rfl⟩ | ⟨rfl, rfl⟩
      · cases planned
      · cases planned

/-- A comparison leaves its result, above the right operand if that is kept. -/
theorem compared {op : BinaryOp} {code : Opcode} {left right : Value} {kept : List Value}
    (leads : visit.LeadsTo position stack)
    (compares : code = .binary ∧ kept = [] ∨ code = .compareKeep ∧ kept = [right])
    (found : visit.machine.frame.code.instrs[visit.position]? =
      some { op := code, first := .op op })
    (held : visit.stack = right :: left :: below) :
    position = visit.position + 1 ∧ ∃ draft,
      (visit.world.pass 1000).binary op left right = .ok draft ∧
        stack = draft.valueIn visit.world.heap :: (kept ++ below) := by
  obtain ⟨⟨frame, callers, _, status, yields, native⟩, world⟩ := visit
  subst held
  obtain ⟨action, planned, _, rfl, leaves⟩ := leads.planned found
  rcases compares with ⟨rfl, rfl⟩ | ⟨rfl, rfl⟩
  all_goals
    change (Machine.orFault ((world.pass 1000).binary op left right) >>= fun _ => _) = _ at planned
    cases result : (world.pass 1000).binary op left right with
    | error fault =>
        rw [result] at planned
        cases planned
    | ok draft =>
        rw [result] at planned
        cases planned
        exact ⟨rfl, draft, rfl, leaves⟩

end Visit.LeadsTo

/-- A link of the chain that ends early at `failure` has been found to fail. -/
def Visit.FailsLink {σ : Type} (failure : Nat) (visit : Visit σ) : Prop :=
  visit.machine.frame.code.instrs[visit.position]? = some (jumpTo .jumpIfFalse failure) ∧
    ∃ value below, visit.stack = value :: below ∧ visit.world.heap.isTruthy value = false

theorem Visit.not_failsLink {σ : Type} {failure : Nat} {visit : Visit σ} {instr : Instr}
    (found : visit.machine.frame.code.instrs[visit.position]? = some instr)
    (other : instr.op ≠ .jumpIfFalse) : ¬ visit.FailsLink failure := by
  rintro ⟨same, _⟩
  cases found.symm.trans same
  exact other rfl

namespace Route

variable {σ : Type} {code : Code} {start place position target failure gate last : Nat}
variable {visit : Visit σ} {visits : List (Visit σ)} {left right : List Instr} {op : LogicOp}

/-- A route that goes on from a conditional jump of a logic operator. -/
theorem afterGate (route : Route code place visits position)
    (found : code.instrs[place]? = some (jumpTo (logicParts op).1 target))
    (moved : position ≠ place) :
    ∃ (later : List (Visit σ)) (visit : Visit σ) (next : Nat) (value : Value) (below : List Value),
      visits = later ++ [visit] ∧ visit.position = place ∧
      visit.stack = value :: below ∧ Route code next later position ∧
      (visit.world.heap.isTruthy value = (!op.asks) ∧ next = target ∨
        visit.world.heap.isTruthy value = op.asks ∧ next = place + 1) := by
  obtain ⟨later, visit, next, _, rfl, rfl, rfl, leads, rest⟩ := route.first moved
  obtain ⟨value, below, held⟩ := leads.operand (logicParts_asks op) found
  obtain ⟨_, taken⟩ := leads.branched (logicParts_asks op) found held
  rw [Bool.not_not] at taken
  exact ⟨later, visit, next, value, below, rfl, rfl, held, rest, taken⟩

/-- A route that is in the right operand of a logic operator has come through the conditional jump
behind the left one. -/
theorem rightOperand (route : Route code place visits position)
    (ascends : Ascends place visits position)
    (has : code.Has place (left ++ jumpTo (logicParts op).1 target :: right))
    (first : Forwards place (place + left.length) left) (gatePlace : gate = place + left.length)
    (beyond : last ≤ target) (after : gate < position) (before : position < last) :
    ∃ (between : List (Visit σ)) (visit : Visit σ) (before : List (Visit σ)) (value : Value)
      (below : List Value), visits = between ++ visit :: before ∧
      Route code place before gate ∧ visit.position = gate ∧ visit.stack = value :: below ∧
      visit.world.heap.isTruthy value = op.asks ∧ Ascends (gate + 1) between position := by
  subst gatePlace
  cases route.passes has.first first with
  | within early => omega
  | @beyond later inner split front inLeft rest =>
      subst split
      obtain ⟨later, visit, next, value, below, rfl, atVisit, held, rest, taken⟩ :=
        rest.afterGate has.second.head (Nat.ne_of_gt after)
      rw [List.append_assoc, List.singleton_append] at ascends ⊢
      have onward := rest.ascends ascends.late
      rcases taken with ⟨_, rfl⟩ | ⟨asked, rfl⟩
      · have most := rest.le fun visit member => (onward.range visit member).2
        omega
      · exact ⟨later, visit, inner, value, below, rfl, front, atVisit, held, asked, onward⟩

/-- Once a link of a chain has failed, a route in order goes on at the failure. -/
theorem afterFailure (route : Route code place visits position)
    (ascends : Ascends place visits position) (member : visit ∈ visits)
    (fails : visit.FailsLink failure) :
    failure ≤ position ∧
      ∀ other ∈ visits, other.position ≤ visit.position ∨ failure ≤ other.position := by
  obtain ⟨later, earlier, rfl⟩ := List.append_of_mem member
  obtain ⟨next, front, back⟩ := route.split
  have onward : Route code failure later position := by
    obtain ⟨found, value, below, held, falsy⟩ := fails
    cases front with
    | goesOn before same known leads =>
        obtain ⟨_, ⟨_, rfl⟩ | ⟨truthy, _⟩⟩ := leads.branched (Or.inl ⟨rfl, rfl⟩) found held
        · exact back
        · cases falsy.symm.trans truthy
  have ordered := onward.ascends ascends.late
  refine ⟨onward.le fun other among => (ordered.range other among).2, fun other among => ?_⟩
  rcases List.mem_append.mp among with after | among
  · exact Or.inr (ordered.range other after).1
  · rcases List.mem_cons.mp among with rfl | before
    · exact Or.inl (Nat.le_refl _)
    · have pairs := (List.pairwise_append.mp ascends.ordered).2.1
      exact Or.inl (Nat.le_of_lt (List.rel_of_pairwise_cons pairs before))

end Route

/-- How a logic operator with its conditional jumps at `gate` and `last` came to its result: the
right operand was not entered, or both operands are known. -/
inductive LogicOutcome {σ : Type} (op : LogicOp) (gate last : Nat) (below : List Value)
    (during : List (Visit σ)) (result : Bool) : Prop where
  | decided {visit : Visit σ} {left : Value} (member : visit ∈ during)
      (place : visit.position = gate) (holds : visit.stack = left :: below)
      (table : ∀ right, result = op.holds (visit.world.heap.isTruthy left) right)
      (skips : ∀ other ∈ during, other.position ≤ gate ∨ last < other.position)
  | both {visit again : Visit σ} {left right : Value} (member : visit ∈ during)
      (place : visit.position = gate) (holds : visit.stack = left :: below)
      (member' : again ∈ during) (place' : again.position = last)
      (holds' : again.stack = right :: below)
      (table : result =
        op.holds (visit.world.heap.isTruthy left) (again.world.heap.isTruthy right))

namespace Trail

variable {σ : Type} {code : Code} {start place position target : Nat} {value : Value}
variable {base below stack : List Value} {visits : List (Visit σ)} {left right : List Instr}

/-- A trail that goes on from a value that is pushed. -/
theorem afterPush (trail : Trail code place below visits position stack)
    (found : code.instrs[place]? = some (pushValue value)) (moved : position ≠ place) :
    ∃ (later : List (Visit σ)) (visit : Visit σ),
      visits = later ++ [visit] ∧ visit.position = place ∧
      Trail code (place + 1) (value :: below) later position stack := by
  obtain ⟨later, visit, _, _, rfl, rfl, rfl, rfl, leads, rest⟩ := trail.first moved
  obtain ⟨rfl, rfl⟩ := leads.pushed found
  exact ⟨later, visit, rfl, rfl, rest⟩

/-- A trail from place to place that ends behind a value that is pushed. -/
theorem lastPush (trail : Trail code place below visits position stack)
    (found : code.instrs[place]? = some (pushValue value)) (ends : position = place + 1)
    (before : ∀ visit ∈ visits, visit.position < position) :
    stack = value :: below ∧ ∀ visit ∈ visits, visit.position = place := by
  obtain ⟨later, visit, rfl, at_, rest⟩ := trail.afterPush found (by omega)
  rw [← ends] at rest
  obtain ⟨rfl, same⟩ := rest.nil_of_before fun visit member =>
    before visit (List.mem_append_left _ member)
  exact ⟨same, List.forall_mem_singleton.mpr at_⟩

theorem afterJump (trail : Trail code place below visits position stack)
    (found : code.instrs[place]? = some (jumpTo .jump target)) (moved : position ≠ place) :
    ∃ (later : List (Visit σ)) (visit : Visit σ), visits = later ++ [visit] ∧
      visit.machine.frame.code.instrs[visit.position]? = some (jumpTo .jump target) ∧
      Trail code target below later position stack := by
  obtain ⟨later, visit, _, _, rfl, rfl, rfl, rfl, leads, rest⟩ := trail.first moved
  obtain ⟨rfl, rfl⟩ := leads.jumped found
  exact ⟨later, visit, rfl, found, rest⟩

/-- A trail that goes on from a conditional jump of a logic operator. -/
theorem afterGate {op : LogicOp} (trail : Trail code place (value :: below) visits position stack)
    (found : code.instrs[place]? = some (jumpTo (logicParts op).1 target))
    (moved : position ≠ place) :
    ∃ (later : List (Visit σ)) (visit : Visit σ) (next : Nat),
      visits = later ++ [visit] ∧ visit.position = place ∧
      visit.stack = value :: below ∧ Trail code next below later position stack ∧
      (visit.world.heap.isTruthy value = (!op.asks) ∧ next = target ∨
        visit.world.heap.isTruthy value = op.asks ∧ next = place + 1) := by
  obtain ⟨later, visit, next, _, rfl, rfl, held, rfl, leads, rest⟩ := trail.first moved
  obtain ⟨rfl, taken⟩ := leads.branched (logicParts_asks op) found held
  rw [Bool.not_not] at taken
  exact ⟨later, visit, next, rfl, rfl, held, rest, taken⟩

variable {op : LogicOp} {gate last shortAt : Nat}

/-- A trail that is on its way through a logic operator: in the right operand it has come through
the first conditional jump, and at the end it has the result. -/
theorem logic (trail : Trail code place below visits position stack)
    (ascends : Ascends place visits position)
    (has : code.Has place (left ++ jumpTo (logicParts op).1 shortAt ::
      (right ++ [jumpTo (logicParts op).1 shortAt, pushValue (.truth op.asks),
        jumpTo .jump (shortAt + 1), pushValue (.truth !op.asks)])))
    (first : Stretch place left) (second : Stretch (gate + 1) right)
    (gatePlace : gate = place + left.length) (lastPlace : last = gate + 1 + right.length)
    (shortPlace : shortAt = last + 3) :
    (gate < position → position < last → ∃ between visit before left,
      visits = between ++ visit :: before ∧ Trail code place below before gate (left :: below) ∧
      visit.position = gate ∧ visit.stack = left :: below ∧
      visit.world.heap.isTruthy left = op.asks ∧ Ascends (gate + 1) between position) ∧
    (position = shortAt + 1 → ∃ result, stack = .truth result :: below ∧
      LogicOutcome op gate last below visits result) := by
  have atGate := has.second
  rw [← gatePlace] at atGate
  have inRight := atGate.tail
  have atLast := inRight.second
  rw [← lastPlace] at atLast
  have atShort : code.instrs[shortAt]? = some (pushValue (.truth !op.asks)) := by
    rw [shortPlace]
    exact atLast.tail.tail.tail.head
  have earlier {more less : List (Visit σ)} (split : visits = more ++ less) :
      ∀ visit ∈ more, visit.position < position := fun visit member => by
    rw [split] at ascends
    exact (ascends.range visit (List.mem_append_left _ member)).2
  rcases trail.passes has.first first with ⟨within, _⟩ |
      ⟨later, before, value, split, front, inLeft, rest⟩
  · exact ⟨by omega, by omega⟩
  rw [← gatePlace] at front inLeft rest
  rcases Nat.lt_or_eq_of_le (rest.le (earlier split)) with beyond | rfl
  case inr => exact ⟨by omega, by omega⟩
  obtain ⟨later, visit, next, rfl, atVisit, held, rest, taken⟩ :=
    rest.afterGate atGate.head (Nat.ne_of_gt beyond)
  rw [List.append_assoc, List.singleton_append] at split
  have member : visit ∈ visits := by
    rw [split]
    exact List.mem_append_right _ (List.mem_cons_self ..)
  rcases taken with ⟨decided, rfl⟩ | ⟨asked, rfl⟩
  · have most := rest.le (earlier split)
    refine ⟨by omega, fun atEnd => ?_⟩
    obtain ⟨same, alone⟩ := rest.lastPush atShort atEnd (earlier split)
    refine ⟨_, same, .decided member atVisit held (fun right => ?_) fun other among => ?_⟩
    · exact (op.holds_of_decided decided right).symm
    · rw [split] at among
      rcases List.mem_append.mp among with after | among
      · exact Or.inr (by rw [alone other after]; omega)
      · rcases List.mem_cons.mp among with rfl | among
        · exact Or.inl (Nat.le_of_eq atVisit)
        · exact Or.inl (Nat.le_of_lt (inLeft.range other among).2)
  rcases rest.passes inRight.first second with ⟨within, inRight⟩ |
      ⟨later, inner, right, rfl, _, _, rest⟩
  · refine ⟨fun _ _ => ?_, by omega⟩
    exact ⟨later, visit, before, value, split, front, atVisit, held, asked, inRight⟩
  rw [← lastPlace] at rest
  rw [List.append_assoc] at split
  have most := rest.le (earlier split)
  refine ⟨by omega, fun atEnd => ?_⟩
  obtain ⟨later, again, next, rfl, atAgain, held', rest, taken⟩ :=
    rest.afterGate atLast.head (by omega)
  rw [List.append_assoc, List.singleton_append] at split
  have member' : again ∈ visits := by
    rw [split]
    exact List.mem_append_right _ (List.mem_cons_self ..)
  have outcome {result : Bool} (same : again.world.heap.isTruthy right = result) :
      LogicOutcome op gate last below visits result := by
    refine .both member atVisit held member' atAgain held' ?_
    rw [asked, op.holds_of_asked, same]
  rcases taken with ⟨decided, rfl⟩ | ⟨asked, rfl⟩
  · exact ⟨_, (rest.lastPush atShort atEnd (earlier split)).1, outcome decided⟩
  · obtain ⟨later, push, rfl, _, rest⟩ := rest.afterPush atLast.tail.head (by omega)
    obtain ⟨later, jump, rfl, _, rest⟩ := rest.afterJump atLast.tail.tail.head (by omega)
    rw [← atEnd] at rest
    obtain ⟨_, same⟩ := rest.nil_of_before fun visit member =>
      earlier split visit (List.mem_append_left _ (List.mem_append_left _ member))
    exact ⟨_, same, outcome asked⟩

end Trail

/-- The last comparison of a chain, whose result is the result of the chain. -/
def Compared {σ : Type} (last : Option BinaryOp) (below : List Value) (during : List (Visit σ))
    (result : Value) : Prop :=
  ∀ op, last = some op → ∃ visit ∈ during, ∃ left right draft,
    visit.machine.frame.code.instrs[visit.position]? = some { op := .binary, first := .op op } ∧
    visit.stack = right :: left :: below ∧
    (visit.world.pass 1000).binary op left right = .ok draft ∧
    result = draft.valueIn visit.world.heap

theorem Compared.mono {σ : Type} {last : Option BinaryOp} {below : List Value} {result : Value}
    {during more : List (Visit σ)} (compared : Compared last below during result)
    (among : ∀ visit ∈ during, visit ∈ more) : Compared last below more result := by
  intro op isLast
  obtain ⟨visit, member, known⟩ := compared op isLast
  exact ⟨visit, among visit member, known⟩

/-- How a chain that ends early at `failure` came to its result: after a link that failed, or with
its last comparison. -/
inductive ChainOutcome {σ : Type} (failure : Nat) (last : Option BinaryOp) (below : List Value)
    (during : List (Visit σ)) : Value → Prop where
  | fails {visit : Visit σ} (member : visit ∈ during) (failed : visit.FailsLink failure) :
      ChainOutcome failure last below during (.truth false)
  | holds {result : Value} (none : ∀ visit ∈ during, ¬ visit.FailsLink failure)
      (compared : Compared last below during result) :
      ChainOutcome failure last below during result

/-- Where a trail is on its way through the links of a chain, from `place` on: among them, beyond
them, or at the failure. -/
inductive LinksPassed {σ : Type} (code : Code) (failure stop : Nat) (last : Option BinaryOp)
    (below : List Value) (visits : List (Visit σ)) (position : Nat) (stack : List Value) :
    Prop where
  | among (before : position < stop)
  | through {later inner : List (Visit σ)} {result : Value} (split : visits = later ++ inner)
      (quiet : ∀ visit ∈ inner, ¬ visit.FailsLink failure)
      (compared : Compared last below inner result)
      (rest : Trail code stop (result :: below) later position stack)
  | failed {later inner : List (Visit σ)} {visit : Visit σ} {kept : Value}
      (split : visits = later ++ visit :: inner) (fails : visit.FailsLink failure)
      (rest : Trail code failure (kept :: below) later position stack)

namespace LinksPassed

variable {σ : Type} {code : Code} {failure stop position : Nat} {last : Option BinaryOp}
variable {below stack : List Value} {visits earlier : List (Visit σ)}

/-- Visits before, of which none has failed. -/
theorem after (passed : LinksPassed code failure stop last below visits position stack)
    (quiet : ∀ visit ∈ earlier, ¬ visit.FailsLink failure) :
    LinksPassed code failure stop last below (visits ++ earlier) position stack := by
  cases passed with
  | among before => exact .among before
  | @through later inner result split none compared rest =>
      subst split
      exact .through (List.append_assoc _ _ _) (List.forall_mem_append.mpr ⟨none, quiet⟩)
        (compared.mono fun _ => List.mem_append_left _) rest
  | @failed later inner visit kept split fails rest =>
      have split : visits ++ earlier = later ++ visit :: (inner ++ earlier) := by
        rw [split, List.append_assoc, List.cons_append]
      exact .failed split fails rest

end LinksPassed

namespace Trail

variable {σ : Type} {code : Code} {place position failure : Nat} {left : Value}
variable {below stack : List Value} {visits : List (Visit σ)} {part : List Instr}

/-- No link fails inside of an operand, which does not know of the failure. -/
theorem quiet_of_inside (has : code.Has place part)
    (forward : Forwards place (place + part.length) part) (beyond : place + part.length < failure)
    {visit : Visit σ} (same : visit.machine.frame.code = code) (after : place ≤ visit.position)
    (before : visit.position < place + part.length) : ¬ visit.FailsLink failure := by
  rintro ⟨found, _⟩
  obtain ⟨instr, here, moves⟩ := has.forward forward after before
  rw [same] at found
  cases found.symm.trans here
  have := moves.aims (Or.inl rfl)
  omega

/-- A trail that goes on from a comparison, with the right operand if that is kept. -/
theorem afterCompare {op : BinaryOp} {opcode : Opcode} {left right : Value} {kept : List Value}
    (trail : Trail code place (right :: left :: below) visits position stack)
    (compares : opcode = .binary ∧ kept = [] ∨ opcode = .compareKeep ∧ kept = [right])
    (found : code.instrs[place]? = some { op := opcode, first := .op op })
    (moved : position ≠ place) :
    ∃ (later : List (Visit σ)) (visit : Visit σ) (draft : Draft), visits = later ++ [visit] ∧
      visit.machine.frame.code.instrs[visit.position]? = some { op := opcode, first := .op op } ∧
      visit.stack = right :: left :: below ∧
      (visit.world.pass 1000).binary op left right = .ok draft ∧
      Trail code (place + 1) (draft.valueIn visit.world.heap :: (kept ++ below)) later position
        stack := by
  obtain ⟨later, visit, _, _, rfl, rfl, held, rfl, leads, rest⟩ := trail.first moved
  obtain ⟨rfl, draft, result, rfl⟩ := leads.compared compares found held
  exact ⟨later, visit, draft, rfl, found, held, result, rest⟩

/-- A trail that goes on from the test of a link. -/
theorem afterTest {value : Value} (trail : Trail code place (value :: below) visits position stack)
    (found : code.instrs[place]? = some (jumpTo .jumpIfFalse failure)) (moved : position ≠ place) :
    ∃ (later : List (Visit σ)) (visit : Visit σ) (next : Nat),
      visits = later ++ [visit] ∧ Trail code next below later position stack ∧
      (visit.FailsLink failure ∧ next = failure ∨
        ¬ visit.FailsLink failure ∧ next = place + 1) := by
  obtain ⟨later, visit, next, _, rfl, rfl, held, rfl, leads, rest⟩ := trail.first moved
  obtain ⟨rfl, taken⟩ := leads.branched (Or.inl ⟨rfl, rfl⟩) found held
  refine ⟨later, visit, next, rfl, rest, taken.imp ?_ ?_⟩
  · exact And.imp_left fun falsy => ⟨found, _, _, held, falsy⟩
  · refine And.imp_left fun truthy fails => ?_
    obtain ⟨_, _, _, same, falsy⟩ := fails
    cases held.symm.trans same
    exact nomatch truthy.symm.trans falsy

/-- A trail on its way through one link of a chain, which ends with the comparison if it is the
last one. -/
theorem link {op : BinaryOp} {isLast : Bool}
    (has : code.Has place (part ++ linkInstrs op isLast failure)) (stretch : Stretch place part)
    (room : place + (part ++ linkInstrs op isLast failure).length < failure)
    (trail : Trail code place (left :: below) visits position stack)
    (before : ∀ visit ∈ visits, visit.position < position) :
    LinksPassed code failure (place + (part ++ linkInstrs op isLast failure).length)
      (if isLast then some op else none) below visits position stack := by
  have atItem := has.first
  have atLink := has.second
  rw [List.length_append] at room ⊢
  rcases trail.passes atItem stretch with ⟨within, _⟩ |
      ⟨later, earlier, right, rfl, front, ascends, rest⟩
  · exact .among (by omega)
  have quiet : ∀ visit ∈ earlier, ¬ visit.FailsLink failure := fun visit member =>
    quiet_of_inside atItem stretch.forward (by omega) (front.code_of_mem visit member)
      (ascends.range visit member).1 (ascends.range visit member).2
  have between : ∀ visit ∈ later, visit.position < position := fun visit member =>
    before visit (List.mem_append_left _ member)
  rcases Nat.lt_or_eq_of_le (rest.le between) with beyond | same
  case inr => exact .among (by rw [← same, linkInstrs_length]; split <;> omega)
  cases isLast with
  | true =>
      obtain ⟨later, visit, draft, rfl, found, held, result, rest⟩ :=
        rest.afterCompare (Or.inl ⟨rfl, rfl⟩) atLink.head (Nat.ne_of_gt beyond)
      refine .through (List.append_assoc _ _ _)
        (List.forall_mem_cons.mpr ⟨Visit.not_failsLink found nofun, quiet⟩) ?_ rest
      rintro _ ⟨⟩
      exact ⟨visit, List.mem_cons_self .., _, _, draft, found, held, result, rfl⟩
  | false =>
      obtain ⟨later, visit, draft, rfl, found, _, _, rest⟩ :=
        rest.afterCompare (Or.inr ⟨rfl, rfl⟩) atLink.head (Nat.ne_of_gt beyond)
      have calm : ∀ other ∈ visit :: earlier, ¬ other.FailsLink failure :=
        List.forall_mem_cons.mpr ⟨Visit.not_failsLink found nofun, quiet⟩
      have ahead : ∀ visit ∈ later, visit.position < position := fun visit member =>
        between visit (List.mem_append_left _ member)
      rw [List.append_assoc, List.singleton_append]
      rcases Nat.lt_or_eq_of_le (rest.le ahead) with beyond | same
      · obtain ⟨later, test, next, rfl, rest, ⟨fails, rfl⟩ | ⟨holds, rfl⟩⟩ :=
          rest.afterTest atLink.tail.head (Nat.ne_of_gt beyond)
        · exact .failed (List.append_assoc _ _ _) fails rest
        · exact .through (List.append_assoc _ _ _) (List.forall_mem_cons.mpr ⟨holds, calm⟩) nofun
            rest
      · rw [← same]
        exact .among (Nat.lt_succ_self _)

/-- A trail on its way through the links of a chain. -/
theorem links {sourceName : Option String} (items : List Expr) {ops : List BinaryOp}
    {first second : LayState} (same : ops.length = items.length)
    (ran : Yields (layLinks sourceName failure place ops items) first part second)
    (has : code.Has place part) (room : place + part.length < failure)
    (trail : Trail code place (left :: below) visits position stack)
    (before : ∀ visit ∈ visits, visit.position < position) :
    LinksPassed code failure (place + part.length) ops.getLast? below visits position stack := by
  induction items generalizing ops place part left visits first with
  | nil =>
      cases ops with
      | nil =>
          simp only [layLinks, yields_pure] at ran
          obtain ⟨rfl, rfl⟩ := ran
          refine .through (List.append_nil visits).symm ?_ ?_ trail
          · intro _ member
            cases member
          · intro _ absent
            cases absent
      | cons => cases same
  | cons item rest ih =>
      cases ops with
      | nil => cases same
      | cons op ops =>
          simp only [layLinks, yields_bind, yields_pure] at ran
          obtain ⟨inner, middle, ranItem, others, _, ranRest, rfl, rfl⟩ := ran
          rw [List.length_append] at room ⊢
          have stretch := WritesExpr.stretch ⟨_, _, _, ranItem⟩
          have link := trail.link has.first stretch (by omega) before
          cases rest with
          | nil =>
              obtain rfl := List.eq_nil_of_length_eq_zero (Nat.succ.inj same)
              simp only [layLinks, yields_pure] at ranRest
              obtain ⟨rfl, rfl⟩ := ranRest
              exact link
          | cons next more =>
              obtain ⟨following, rest, rfl⟩ := List.exists_cons_of_length_eq_add_one
                (Nat.succ.inj same)
              rw [List.getLast?_cons_cons]
              cases link with
              | among before => exact .among (by omega)
              | failed split fails rest => exact .failed split fails rest
              | @through later inner result split quiet compared onward =>
                  subst split
                  have passed := ih (Nat.succ.inj same) ranRest has.second
                    (by omega) onward fun visit member => before visit
                      (List.mem_append_left _ member)
                  rw [Nat.add_assoc] at passed
                  exact passed.after quiet

theorem afterPop {value : Value} (trail : Trail code place (value :: below) visits position stack)
    (found : code.instrs[place]? = some { op := .pop }) (moved : position ≠ place) :
    ∃ (later : List (Visit σ)) (visit : Visit σ), visits = later ++ [visit] ∧
      Trail code (place + 1) below later position stack := by
  obtain ⟨later, visit, _, _, rfl, rfl, held, rfl, leads, rest⟩ := trail.first moved
  obtain ⟨rfl, rfl⟩ := leads.popped found held
  exact ⟨later, visit, rfl, rest⟩

/-- Where a link has failed, the operand that it kept is dropped and the result is false. -/
theorem atFailure {value : Value}
    (trail : Trail code failure (value :: below) visits position stack)
    (has : code.Has failure [{ op := .pop }, pushValue (.truth false)])
    (before : ∀ visit ∈ visits, visit.position < position) (ends : position = failure + 2) :
    stack = .truth false :: below := by
  obtain ⟨later, pops, rfl, rest⟩ := trail.afterPop has.head (by omega)
  exact (rest.lastPush has.tail.head ends fun visit member =>
    before visit (List.mem_append_left _ member)).1

/-- A trail that has come to the end of a chain of comparisons has the result. -/
theorem chain {sourceName : Option String} {head links : List Instr} {rest : List Expr}
    {ops : List BinaryOp} {first second : LayState}
    (trail : Trail code place below visits position stack)
    (ordered : Ascends place visits position)
    (has : code.Has place (head ++ links ++
      [jumpTo .jump (failure + 2), { op := .pop }, pushValue (.truth false)]))
    (stretch : Stretch place head) (same : ops.length = rest.length)
    (ran : Yields (layLinks sourceName failure (place + head.length) ops rest) first links
      second)
    (failurePlace : failure = place + head.length + links.length + 1)
    (atEnd : position = failure + 2) :
    ∃ result, stack = result :: below ∧ ChainOutcome failure ops.getLast? below visits result := by
  have atTail := has.second
  rw [List.length_append, ← Nat.add_assoc] at atTail
  rcases trail.passes has.first.first stretch with ⟨within, _⟩ |
      ⟨later, inner, value, rfl, front, ordered', onward⟩
  · omega
  have quiet : ∀ visit ∈ inner, ¬ visit.FailsLink failure := fun visit member =>
    quiet_of_inside has.first.first stretch.forward (by omega) (front.code_of_mem visit member)
      (ordered'.range visit member).1 (ordered'.range visit member).2
  have between : ∀ visit ∈ later, visit.position < position := fun visit member =>
    (ordered.late.range visit member).2
  have links := Trail.links rest same ran has.first.second (by omega) onward between
  cases links.after quiet with
  | among before => omega
  | @through later inner result split quiet compared onward =>
      rw [split] at ordered ⊢
      obtain ⟨later, jump, rfl, found, onward⟩ := onward.afterJump atTail.head (by omega)
      rw [← atEnd] at onward
      obtain ⟨rfl, rfl⟩ := onward.nil_of_before fun visit member =>
        (ordered.range visit (List.mem_append_left _ (List.mem_append_left _ member))).2
      refine ⟨result, rfl, .holds ?_ (compared.mono fun _ => List.mem_cons_of_mem _)⟩
      exact List.forall_mem_cons.mpr ⟨Visit.not_failsLink found nofun, quiet⟩
  | @failed later inner visit kept split fails onward =>
      rw [split] at ordered ⊢
      have atFailure := atTail.tail
      rw [← failurePlace] at atFailure
      refine ⟨_, onward.atFailure atFailure (fun visit member => ?_) atEnd, .fails ?_ fails⟩
      · exact (ordered.late.range visit member).2
      · exact List.mem_append_right _ (List.mem_cons_self ..)

end Trail

/-- A trail from the start of some code is on its way through the node at `place`: it came there
after the visits `earlier` with the operands `below`, and has gone on from place to place since. -/
structure UnderWay {σ : Type} (code : Code) (base : List Value) (place : Nat)
    (visits during earlier : List (Visit σ)) (below : List Value) (position : Nat)
    (stack : List Value) : Prop where
  split : visits = during ++ earlier
  came : Trail code 0 base earlier place below
  trail : Trail code place below during position stack
  ordered : Ascends place during position

/-- What holds of a node where a frame is about to act: the part that an operator which may end
early plays in the trail of the frame. -/
structure EndsEarly {σ : Type} (code : Code) (base : List Value) (node : Nat × Expr)
    (visits : List (Visit σ)) (position : Nat) (stack : List Value) : Prop where
  /-- In the right operand of a logic operator the frame has come through the conditional jump
  behind the left one, which left a truthy value for `and` and a falsy one for `or`. -/
  rightOperand : ∀ {left : Expr} {op : LogicOp} {span : Span} {id : NodeId} {right : Expr},
    node.2 = .logic left op span id right → node.1 + exprSize left < position →
    position < node.1 + exprSize left + 1 + exprSize right →
      ∃ between gate before earlier below value,
        UnderWay code base node.1 visits (between ++ gate :: before) earlier below position stack ∧
        Trail code node.1 below before (node.1 + exprSize left) (value :: below) ∧
        gate.position = node.1 + exprSize left ∧ gate.stack = value :: below ∧
        gate.world.heap.isTruthy value = op.asks ∧
        Ascends (node.1 + exprSize left + 1) between position
  /-- At its end there is one operand more than at its start, as the truth table says. -/
  logicEnd : ∀ {left : Expr} {op : LogicOp} {span : Span} {id : NodeId} {right : Expr},
    node.2 = .logic left op span id right → position = node.1 + exprSize node.2 →
      ∃ during earlier below result,
        UnderWay code base node.1 visits during earlier below position stack ∧
        stack = .truth result :: below ∧
        LogicOutcome op (node.1 + exprSize left) (node.1 + exprSize left + 1 + exprSize right) below
          during result
  /-- A chain goes through its operands in order, at most once through each, and to the failure at
  its end once a link has failed; it leaves one operand. -/
  chain : ∀ {span : Span} {id : NodeId} {first : Expr} {rest : List Expr}
      {ops : List (BinaryOp × Span)},
    node.2 = .chain span id (first :: rest) ops → node.1 < position →
    position ≤ node.1 + exprSize node.2 →
      let failure := node.1 + exprSize first + linksSize rest + 1
      ∃ during earlier below,
        UnderWay code base node.1 visits during earlier below position stack ∧
        (∀ visit ∈ during, visit.FailsLink failure → failure ≤ position ∧
          ∀ other ∈ during, other.position ≤ visit.position ∨ failure ≤ other.position) ∧
        (position = node.1 + exprSize node.2 → ∃ result, stack = result :: below ∧
          ChainOutcome failure (ops.map (·.1)).getLast? below during result)

namespace UnderWay

variable {σ : Type} {sourceName : Option String} {code : Code} {base below stack : List Value}
variable {place position : Nat} {visits during earlier : List (Visit σ)} {part : List Instr}
variable {span : Span} {id : NodeId}

theorem logic {left right : Expr} {op : LogicOp}
    (under : UnderWay code base place visits during earlier below position stack)
    (writes : WritesExpr sourceName place (.logic left op span id right) part)
    (has : code.Has place part) :
    let gate := place + exprSize left
    let last := gate + 1 + exprSize right
    (gate < position → position < last → ∃ between visit before value,
      during = between ++ visit :: before ∧ Trail code place below before gate (value :: below) ∧
      visit.position = gate ∧ visit.stack = value :: below ∧
      visit.world.heap.isTruthy value = op.asks ∧ Ascends (gate + 1) between position) ∧
    (position = last + 4 → ∃ result, stack = .truth result :: below ∧
      LogicOutcome op gate last below during result) := by
  obtain ⟨first, second, shortAt, leftWritten, rightWritten, short, rfl⟩ := writes.logicParts
  intro gate last
  have gatePlace : gate = place + first.length := by rw [leftWritten.length]
  have lastPlace : last = gate + 1 + second.length := by rw [rightWritten.length]
  have stretch := rightWritten.stretch
  rw [← gatePlace] at stretch
  obtain rfl : shortAt = last + 3 := by omega
  exact under.trail.logic under.ordered has leftWritten.stretch stretch gatePlace lastPlace rfl

theorem chain {first : Expr} {rest : List Expr} {ops : List (BinaryOp × Span)}
    (under : UnderWay code base place visits during earlier below position stack)
    (writes : WritesExpr sourceName place (.chain span id (first :: rest) ops) part)
    (has : code.Has place part) :
    let failure := place + exprSize first + linksSize rest + 1
    position = failure + 2 → ∃ result, stack = result :: below ∧
      ChainOutcome failure (ops.map (·.1)).getLast? below during result := by
  obtain ⟨mode, _, _, ran⟩ := writes
  simp only [layExpr, yields_ite, yields_bind, yields_pure, yields_reject, and_false,
    or_false] at ran
  obtain ⟨same, head, _, ranHead, links, _, ranLinks, rfl, rfl⟩ := ran
  have headWritten : WritesExpr sourceName place first head := ⟨_, _, _, ranHead⟩
  have count : (ops.map (·.1)).length = rest.length := by rw [List.length_map, same]
  have length := (layLinks_written rest count ranLinks).length
  rw [← headWritten.length]
  intro failure
  exact under.trail.chain under.ordered has headWritten.stretch count ranLinks (by rw [length])

end UnderWay

theorem Trail.endsEarly {σ : Type} {sourceName : Option String} {code : Code}
    {base stack : List Value} {position : Nat} {visits : List (Visit σ)} {node : Nat × Expr}
    (trail : Trail code 0 base visits position stack)
    (inside : NodeInside sourceName 0 code.instrs.toList node) :
    EndsEarly code base node visits position stack := by
  obtain ⟨part, writes, within, behind⟩ := inside
  rw [Nat.sub_zero, Array.getElem?_toList] at behind
  have has := Code.Has.ofSealed within
  have underWay (after : node.1 < position) (before : position ≤ node.1 + exprSize node.2) :
      ∃ during earlier below,
        UnderWay code base node.1 visits during earlier below position stack := by
    rw [← writes.length] at before
    obtain ⟨during, earlier, below, split, came, rest, ordered⟩ :=
      trail.entered (Nat.zero_le _) within writes.stretch.forward behind after before
    exact ⟨during, earlier, below, split, came, rest, ordered⟩
  constructor
  · intro left op span id right isLogic after before
    rw [isLogic] at writes
    obtain ⟨during, earlier, below, under⟩ := underWay (by omega) (by rw [isLogic, exprSize]; omega)
    obtain ⟨between, gate, inLeft, value, rfl, known⟩ := (under.logic writes has).1 after before
    exact ⟨between, gate, inLeft, earlier, below, value, under, known⟩
  · intro left op span id right isLogic ends
    rw [isLogic] at writes
    have size : exprSize node.2 = exprSize left + exprSize right + 5 := by rw [isLogic, exprSize]
    obtain ⟨during, earlier, below, under⟩ := underWay (by omega) (by omega)
    obtain ⟨result, known⟩ := (under.logic writes has).2 (by omega)
    exact ⟨during, earlier, below, result, under, known⟩
  · intro span id first rest ops isChain after before failure
    rw [isChain] at writes
    have size : exprSize node.2 = exprSize first + linksSize rest + 3 := by rw [isChain, exprSize]
    obtain ⟨during, earlier, below, under⟩ := underWay after before
    refine ⟨during, earlier, below, under, fun visit among fails => ?_, fun atEnd => ?_⟩
    · exact under.trail.route.afterFailure under.ordered among fails
    · exact under.chain writes has (by omega)

/-- A route from the start of some code is in the node at `place`: it came there after the visits
`earlier`, and has gone on from place to place since. -/
structure Midway {σ : Type} (code : Code) (place : Nat) (visits during earlier : List (Visit σ))
    (position : Nat) : Prop where
  split : visits = during ++ earlier
  came : Route code 0 earlier place
  route : Route code place during position
  ordered : Ascends place during position

/-- What holds of a node where a frame is about to act, whatever has become of its operands: an
operator that may end early has been gone through in order. -/
structure GoesInOrder {σ : Type} (code : Code) (node : Nat × Expr) (visits : List (Visit σ))
    (position : Nat) : Prop where
  /-- In the right operand of a logic operator the frame has come through the conditional jump
  behind the left one, which took a truthy value for `and` and a falsy one for `or`. -/
  rightOperand : ∀ {left : Expr} {op : LogicOp} {span : Span} {id : NodeId} {right : Expr},
    node.2 = .logic left op span id right → node.1 + exprSize left < position →
    position < node.1 + exprSize left + 1 + exprSize right →
      ∃ (between : List (Visit σ)) (gate : Visit σ) (before earlier : List (Visit σ))
        (value : Value) (below : List Value),
        Midway code node.1 visits (between ++ gate :: before) earlier position ∧
        Route code node.1 before (node.1 + exprSize left) ∧
        gate.position = node.1 + exprSize left ∧ gate.stack = value :: below ∧
        gate.world.heap.isTruthy value = op.asks ∧
        Ascends (node.1 + exprSize left + 1) between position
  /-- A chain goes through its operands in order, at most once through each, and to the failure at
  its end once a link has failed. -/
  chain : ∀ {span : Span} {id : NodeId} {first : Expr} {rest : List Expr}
      {ops : List (BinaryOp × Span)},
    node.2 = .chain span id (first :: rest) ops → node.1 < position →
    position ≤ node.1 + exprSize node.2 →
      let failure := node.1 + exprSize first + linksSize rest + 1
      ∃ during earlier, Midway code node.1 visits during earlier position ∧
        ∀ visit ∈ during, visit.FailsLink failure → failure ≤ position ∧
          ∀ other ∈ during, other.position ≤ visit.position ∨ failure ≤ other.position

theorem Route.goesInOrder {σ : Type} {sourceName : Option String} {code : Code} {position : Nat}
    {visits : List (Visit σ)} {node : Nat × Expr} (route : Route code 0 visits position)
    (inside : NodeInside sourceName 0 code.instrs.toList node) :
    GoesInOrder code node visits position := by
  obtain ⟨part, writes, within, behind⟩ := inside
  rw [Nat.sub_zero, Array.getElem?_toList] at behind
  have has := Code.Has.ofSealed within
  have midway (after : node.1 < position) (before : position ≤ node.1 + exprSize node.2) :
      ∃ during earlier, Midway code node.1 visits during earlier position := by
    rw [← writes.length] at before
    obtain ⟨during, earlier, split, came, rest, ordered⟩ :=
      route.entered (Nat.zero_le _) within writes.stretch.forward behind after before
    exact ⟨during, earlier, split, came, rest, ordered⟩
  constructor
  · intro left op span id right isLogic after before
    rw [isLogic] at writes
    obtain ⟨during, earlier, mid⟩ := midway (by omega) (by rw [isLogic, exprSize]; omega)
    obtain ⟨first, second, shortAt, leftWritten, rightWritten, short, rfl⟩ := writes.logicParts
    have beyond : node.1 + exprSize left + 1 + exprSize right ≤ shortAt := by
      rw [short, leftWritten.length, rightWritten.length]
      omega
    obtain ⟨between, gate, inLeft, value, below, rfl, known⟩ :=
      mid.route.rightOperand mid.ordered has leftWritten.stretch.forward
        (by rw [leftWritten.length]) beyond after before
    exact ⟨between, gate, inLeft, earlier, value, below, mid, known⟩
  · intro span id first rest ops isChain after before failure
    obtain ⟨during, earlier, mid⟩ := midway after before
    exact ⟨during, earlier, mid, fun visit member =>
      mid.route.afterFailure mid.ordered member⟩

namespace Machine

variable {σ : Type} {host : Host σ} {initial : World σ} {first : Machine} {outer : List Frame}

/-- In the code of every compiled body, in every run of a frame of that code: wherever the frame is
about to act, all the operators in the body that may end early have been gone through in order,
whatever the functions do that are called. As long as these are compiled too, the operators have
done with the operands as they should. -/
theorem operators_end_early {sourceName : Option String} {kind : BodyKind} {stmts : List Stmt}
    {functions result : Array Definition} {code : Code} {scope : ScopeRef} {node : Nat × Expr}
    (compiled : compileBody sourceName kind stmts functions = .ok (code, result))
    (member : node ∈ stmtsNodes 0 stmts) (fresh : first.frame = { code, scope })
    (callers : first.callers = outer) (active : first.Active) :
    (∀ {visits : List (Visit σ)} {machine : Machine} {world : World σ},
      Tenure host outer first initial visits machine world → machine.Acts outer →
        GoesInOrder code node visits machine.position) ∧
    ∀ {visits : List (Visit σ)} {machine : Machine} {world : World σ},
      Journey host outer first initial visits machine world → machine.Acts outer →
        EndsEarly code first.stack node visits machine.position machine.stack := by
  have inside := compileBody_nodes compiled node member
  have nonempty : 0 < code.size := by
    obtain ⟨part, _, _, instr, found, _⟩ := inside
    obtain ⟨within, _⟩ := List.getElem?_eq_some_iff.mp found
    rw [Array.length_toList] at within
    exact Nat.lt_of_le_of_lt (Nat.zero_le _) within
  have begins : first.Stands outer := by
    refine ⟨?_, Nat.le_of_eq (congrArg List.length callers.symm), fun _ => ?_⟩
    · rcases active.status with status | status
      · rw [status]
        decide
      · rw [status]
        decide
    · rw [fresh, Frame.isDone, decide_eq_false_iff_not]
      exact Nat.not_le_of_lt nonempty
  have known : first.frame.LoopsKnown := by
    rw [fresh]
    intro _ member
    cases member
  constructor
  · intro visits machine world tenure acts
    obtain ⟨_, route⟩ := (tenure.line begins active callers acts).2.route known
    rw [fresh] at route
    exact route.goesInOrder inside
  · intro visits machine world journey acts
    have stage : Stage code outer 0 first.stack ([] : List (Visit σ)) first := by
      refine .acts active.status callers (by rw [fresh]) known ?_
      rw [position, fresh]
      exact .start
    have coherent : first.Coherent := .ofActive active
    cases journey.stage begins coherent stage with
    | acts _ _ _ _ trail => exact trail.endsEarly inside
    | waits waiting =>
        exact absurd acts (not_acts_of_waiting (journey.coherent coherent) waiting)
    | away inside =>
        have deep : outer.length < machine.depth := inside.above.suffix.length_le
        exact absurd acts.1 (Nat.ne_of_gt deep)

end Machine

/-- What the function `g` answers is asked for before the right operand is looked at. -/
def Expr.asksG : Expr :=
  .logic (.name ⟨"g", default, 0⟩) .and default 0 (.null default 0)

def Code.asksG (entries : Array SourceEntry) : Code where
  instrs := #[{ op := .callVar, first := .name "g", second := .int 0 }, jumpTo .jumpIfFalse 6,
    pushValue .null, jumpTo .jumpIfFalse 6, pushValue (.truth true), jumpTo .jump 7,
    pushValue (.truth false), { op := .pop }]
  entries

theorem Code.asksG_compiled : ∃ entries,
    compileBody none .program [.expr 0 .asksG] #[] = .ok (Code.asksG entries, #[]) :=
  ⟨_, rfl⟩

/-- The right operand is entered once the function that is called for the left one has answered. -/
theorem Machine.right_operand_after_called_one :
    ∃ (code : Code) (visits : List (Visit Unit)) (machine : Machine),
      GoesInOrder code (0, .asksG) visits machine.position ∧
      EndsEarly code [] (0, .asksG) visits machine.position machine.stack ∧
      machine.position = 2 ∧ visits.length = 2 := by
  obtain ⟨inner, innerBody⟩ := Code.answersText_isBody
  let world := World.withFunctions (.answersText inner) (.answersText inner)
  have compiled : world.Compiled := World.withFunctions_compiled innerBody innerBody
  obtain ⟨entries, written⟩ := Code.asksG_compiled
  let first : Machine := .start (Code.asksG entries) ⟨0⟩
  let begun : Machine := { first with status := .running }
  let nested : Machine :=
    { begun with
      frame := { code := Code.answersText inner, scope := ⟨1⟩ }
      callers := [begun.begun.frame] }
  have calls : Machine.Journey .silent [] first world [⟨begun, world⟩] nested world.entering :=
    Machine.Journey.start.goesOn (World.poll .silent) (fun _ _ enters => enters.isBody compiled) rfl
      ⟨nofun, Nat.zero_le _, nofun⟩
  have answers : Machine.Journey .silent [] first world [⟨begun, world⟩]
      { nested.begun with stack := [.text "answer"] } (world.entering.pass 1000) :=
    calls.goesOn (World.poll .silent) (fun _ _ enters => enters.isBody compiled) rfl
      ⟨nofun, Nat.zero_le _, nofun⟩
  have returns : Machine.Journey .silent [] first world [⟨begun, world⟩]
      { begun.begun with stack := [.text "answer"] } ((world.entering.pass 1000).pass 1000) :=
    answers.goesOn (World.poll .silent) (fun _ _ enters => enters.isBody compiled) rfl
      ⟨nofun, Nat.zero_le _, fun _ => rfl⟩
  let machine : Machine := { begun.begun.begun with stack := [] }
  have acts : machine.Acts [] := ⟨rfl, rfl⟩
  have asks : Machine.Journey .silent [] first world
      [⟨{ begun.begun with stack := [.text "answer"] }, (world.entering.pass 1000).pass 1000⟩,
        ⟨begun, world⟩] machine (((world.entering.pass 1000).pass 1000).pass 1000) :=
    returns.goesOn (World.poll .silent) (fun _ _ enters => enters.isBody compiled) rfl
      ⟨nofun, Nat.zero_le _, fun _ => rfl⟩
  have frame : first.frame = { code := .asksG entries, scope := ⟨0⟩ } := rfl
  have callers : first.callers = [] := rfl
  have ordered := (Machine.operators_end_early written (List.mem_cons_self ..) frame callers
    ⟨Or.inl rfl, rfl⟩).1 asks.tenure acts
  have kept := (Machine.operators_end_early written (List.mem_cons_self ..) frame callers
    ⟨Or.inl rfl, rfl⟩).2 asks acts
  exact ⟨_, _, _, ordered, kept, rfl, rfl⟩

/-- A function that no compiler writes: it leaves an operand behind, below its answer. -/
def Code.leavesOperand : Code where
  instrs := #[pushValue (.truth true), pushValue (.truth false), { op := .return }]

/-- The frames share one operand stack, so a function from elsewhere that is called for an operand
can leave a value there: at the end of the operator two operands have been added. -/
theorem Machine.foreign_function_leaves_operand :
    ∃ (code : Code) (first machine : Machine) (world after : World Unit)
      (visits : List (Visit Unit)),
      compileBody none .program [.expr 0 .asksG] #[] = .ok (code, #[]) ∧
        (0, Expr.asksG) ∈ stmtsNodes 0 [.expr 0 .asksG] ∧
        first.frame = { code, scope := ⟨0⟩ } ∧ first.callers = [] ∧ first.Active ∧
        Machine.Tenure .silent [] first world visits machine after ∧ machine.Acts [] ∧
        machine.position = exprSize .asksG ∧ machine.stack.length = first.stack.length + 2 := by
  obtain ⟨entries, written⟩ := Code.asksG_compiled
  let world := World.withFunctions .leavesOperand .leavesOperand
  let first : Machine := .start (Code.asksG entries) ⟨0⟩
  let begun : Machine := { first with status := .running }
  let nested : Machine :=
    { begun with
      frame := { code := .leavesOperand, scope := ⟨1⟩ }
      callers := [begun.begun.frame] }
  let skipped : Machine := { begun with frame := { begun.frame with position := 6 } }
  have calls : Machine.Tenure .silent [] first world _ nested world.entering :=
    Machine.Tenure.start.goesOn (World.poll .silent) rfl ⟨nofun, Nat.zero_le _, nofun⟩
  have leaves : Machine.Tenure .silent [] first world _
      { nested.begun with stack := [.truth true] } (world.entering.pass 1000) :=
    calls.goesOn (World.poll .silent) rfl ⟨nofun, Nat.zero_le _, nofun⟩
  have answers : Machine.Tenure .silent [] first world _
      { nested.begun.begun with stack := [.truth false, .truth true] }
      ((world.entering.pass 1000).pass 1000) :=
    leaves.goesOn (World.poll .silent) rfl ⟨nofun, Nat.zero_le _, nofun⟩
  have returns : Machine.Tenure .silent [] first world _
      { begun.begun with stack := [.truth false, .truth true] }
      (((world.entering.pass 1000).pass 1000).pass 1000) :=
    answers.goesOn (World.poll .silent) rfl ⟨nofun, Nat.zero_le _, fun _ => rfl⟩
  have skips : Machine.Tenure .silent [] first world _ { skipped with stack := [.truth true] }
      ((((world.entering.pass 1000).pass 1000).pass 1000).pass 1000) :=
    returns.goesOn (World.poll .silent) rfl ⟨nofun, Nat.zero_le _, fun _ => rfl⟩
  have ends : Machine.Tenure .silent [] first world _
      { skipped.begun with stack := [.truth false, .truth true] }
      (((((world.entering.pass 1000).pass 1000).pass 1000).pass 1000).pass 1000) :=
    skips.goesOn (World.poll .silent) rfl ⟨nofun, Nat.zero_le _, fun _ => rfl⟩
  refine ⟨_, first, _, world, _, _, written, List.mem_cons_self .., rfl, rfl, ⟨Or.inl rfl, rfl⟩,
    ends, ?_⟩
  exact ⟨⟨rfl, rfl⟩, rfl, rfl⟩

end MiniScript
