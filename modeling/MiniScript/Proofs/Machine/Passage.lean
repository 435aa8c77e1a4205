import MiniScript.Proofs.Compiler.Nodes
import MiniScript.Proofs.Machine.Trail

/-!
# Passing through the code of an expression

A trail comes into the code of an expression at its start only, goes through it in
the order of its instructions and comes out at its end, with one operand more. This
holds of every sealed piece of code that goes forward, however the functions behave
that are called in between. The route of a frame is its trail without the operands:
where a frame goes is known even if nothing is known of what is called.
-/

namespace MiniScript

open Compiler

/-- Code that goes forward to its end and leaves one operand there. -/
structure Stretch (place : Nat) (part : List Instr) : Prop where
  forward : Forwards place (place + part.length) part
  pushes : Pushes place part 1

theorem Compiler.WritesExpr.stretch {sourceName : Option String} {place : Nat} {expr : Expr}
    {part : List Instr} (writes : WritesExpr sourceName place expr part) : Stretch place part := by
  obtain ⟨mode, before, after, ran⟩ := writes
  exact ⟨(layExpr_placed expr ran).forward, (layExpr_written expr ran).pushes⟩

theorem Compiler.WritesExpr.length {sourceName : Option String} {place : Nat} {expr : Expr}
    {part : List Instr} (writes : WritesExpr sourceName place expr part) :
    part.length = exprSize expr := by
  obtain ⟨mode, before, after, ran⟩ := writes
  exact (layExpr_written expr ran).length

/-- The code has the part at that place. -/
def Code.Has (code : Code) (place : Nat) (part : List Instr) : Prop :=
  ∀ offset, offset < part.length → code.instrs[place + offset]? = part[offset]?

namespace Code.Has

variable {code : Code} {place : Nat} {left right part : List Instr} {instr : Instr}

theorem ofSealed (inside : Sealed 0 code.instrs.toList place part) : code.Has place part := by
  intro offset within
  rw [← inside.getElem? within, Nat.sub_zero, Array.getElem?_toList]

theorem ofSplit {before after : List Instr} (split : code.instrs.toList = before ++ part ++ after) :
    code.Has before.length part := by
  intro offset within
  rw [← Array.getElem?_toList, split, List.append_assoc,
    List.getElem?_append_right (Nat.le_add_right _ _), Nat.add_sub_cancel_left,
    List.getElem?_append_left within]

theorem first (has : code.Has place (left ++ right)) : code.Has place left := by
  intro offset within
  rw [has offset (by rw [List.length_append]; omega), List.getElem?_append_left within]

theorem second (has : code.Has place (left ++ right)) : code.Has (place + left.length) right := by
  intro offset within
  rw [Nat.add_assoc, has (left.length + offset) (by rw [List.length_append]; omega),
    List.getElem?_append_right (Nat.le_add_right _ _), Nat.add_sub_cancel_left]

theorem head (has : code.Has place (instr :: part)) : code.instrs[place]? = some instr :=
  has 0 (Nat.succ_pos _)

theorem tail (has : code.Has place (instr :: part)) : code.Has (place + 1) part :=
  @second code place [instr] part has

theorem forward {stop position : Nat} (has : code.Has place part)
    (forward : Forwards place stop part)
    (after : place ≤ position) (before : position < place + part.length) :
    ∃ instr, code.instrs[position]? = some instr ∧ instr.Forward position stop := by
  have within : position - place < part.length := by omega
  have found := has _ within
  have moves := forward _ _ (List.getElem?_eq_getElem within)
  rw [show place + (position - place) = position by omega] at found moves
  exact ⟨_, found.trans (List.getElem?_eq_getElem within), moves⟩

end Code.Has

theorem Sealed.mem_of_outside {code : Code} {place position : Nat} {part before after : List Instr}
    {instr : Instr} (split : code.instrs.toList = before ++ part ++ after)
    (starts : place = before.length) (found : code.instrs[position]? = some instr)
    (outside : position < place ∨ place + part.length ≤ position) : instr ∈ before ++ after := by
  rw [← Array.getElem?_toList, split, List.append_assoc] at found
  rcases outside with ahead | behind
  · rw [List.getElem?_append_left (by omega)] at found
    exact List.mem_append_left _ (List.mem_of_getElem? found)
  · rw [List.getElem?_append_right (by omega), List.getElem?_append_right (by omega)] at found
    exact List.mem_append_right _ (List.mem_of_getElem? found)

/-- Where an instruction that goes forward is accepted outside of loops, it is so in any code and
leads to places outside of loops. -/
theorem Accepts.plain {outermost other : Bool} {next : Places} {position stop height : Nat}
    {instr : Instr} (accepts : Accepts outermost next position instr ⟨height, []⟩)
    (forward : instr.Forward position stop) :
    Accepts other (fun place slot => next place slot ∧ slot.loops = []) position instr
      ⟨height, []⟩ := by
  generalize held : (⟨height, []⟩ : Slot) = slot at accepts
  cases accepts with
  | straight rest moves onward =>
      cases held
      exact .straight rest moves ⟨onward, rfl⟩
  | jump onward =>
      subst held
      exact .jump ⟨onward, rfl⟩
  | branch height branches onward away =>
      cases held
      exact .branch height branches ⟨onward, rfl⟩ ⟨away, rfl⟩
  | leave | drop => exact absurd rfl (forward.op_ne (by simp only [or_true]))
  | create => exact absurd rfl (forward.op_ne (Or.inl rfl))
  | iterate | exit | again | forget => cases held

theorem Action.Leaves.owed {heap : Heap} {stack : List Value} {action : Action}
    (leaves : action.Leaves heap stack) :
    ∃ results, results.length = action.owed ∧ stack = results ++ action.next.stack := by
  cases action with
  | produce next draft => exact ⟨[draft.valueIn heap], rfl, leaves⟩
  | call next callee args receiver owner =>
      obtain ⟨value, same⟩ := leaves
      exact ⟨[value], rfl, same⟩
  | _ => exact ⟨[], rfl, leaves⟩

namespace Visit.LeadsTo

variable {σ : Type} {visit : Visit σ} {code : Code} {position place stop : Nat}
variable {stack below : List Value} {part : List Instr} {instr : Instr}

theorem planned (leads : visit.LeadsTo position stack)
    (found : visit.machine.frame.code.instrs[visit.position]? = some instr) :
    ∃ action, Machine.plan (visit.world.pass 1000) visit.machine.begun visit.position instr =
        .ok action ∧ action.next.callers = visit.machine.callers ∧
      action.next.frame.position = position ∧ action.Leaves visit.world.heap stack := by
  obtain ⟨other, action, same, planned, callers, place, leaves⟩ := leads
  obtain rfl : instr = other := Option.some.inj (found.symm.trans same)
  exact ⟨action, planned, callers, place, leaves⟩

theorem steers (leads : visit.LeadsTo position stack)
    (found : visit.machine.frame.code.instrs[visit.position]? = some instr) :
    position = visit.position + 1 ∨ instr.Aims position ∨
      (instr.op = .breakForLoop ∨ instr.op = .continueForLoop) ∧
        ∃ loop ∈ visit.machine.frame.loops, position = loop.start ∨ position = loop.exit := by
  obtain ⟨action, planned, callers, rfl, _⟩ := leads.planned found
  exact (Machine.plan_stays _ _ _ _ action planned callers).place

/-- Inside of the part a visit leads on, to its end at most. -/
theorem ahead (leads : visit.LeadsTo position stack) (same : visit.machine.frame.code = code)
    (has : code.Has place part) (forward : Forwards place (place + part.length) part)
    (after : place ≤ visit.position) (before : visit.position < place + part.length) :
    visit.position < position ∧ position ≤ place + part.length := by
  subst same
  obtain ⟨instr, found, moves⟩ := has.forward forward after before
  rcases leads.steers found with next | aims | ⟨loops, _⟩
  · omega
  · exact moves.aims aims
  · rcases loops with isBreak | isContinue
    · exact absurd isBreak (moves.op_ne (by simp only [true_or, or_true]))
    · exact absurd isContinue (moves.op_ne (by simp only [true_or, or_true]))

/-- From outside of a sealed part a visit leads to its start at most, or beyond its end. -/
theorem fence (leads : visit.LeadsTo position stack) (same : visit.machine.frame.code = code)
    (known : visit.machine.frame.LoopsKnown) (inside : Sealed 0 code.instrs.toList place part)
    (forward : Forwards place (place + part.length) part)
    (behind : ∃ instr, code.instrs[place + part.length]? = some instr ∧
      instr.op ≠ .iterateForLoop)
    (outside : visit.position < place ∨ place + part.length ≤ visit.position) :
    position ≤ place ∨ place + part.length < position := by
  subst same
  have has := Code.Has.ofSealed inside
  obtain ⟨before, after, split, starts, avoids⟩ := inside
  rw [Nat.zero_add] at starts
  have aimed {instr : Instr} {address target : Nat}
      (found : visit.machine.frame.code.instrs[address]? = some instr)
      (outside : address < place ∨ place + part.length ≤ address) (aims : instr.Aims target) :
      target ≤ place ∨ place + part.length < target :=
    avoids instr (Sealed.mem_of_outside split starts found outside) target aims
  have ⟨instr, _, found, _⟩ := leads
  rcases leads.steers found with next | aims | ⟨_, loop, member, bound⟩
  · omega
  · exact aimed found outside aims
  · rcases known loop member with ⟨start, exit⟩ | ⟨turn, at_, isTurn, exit⟩
    · omega
    · -- The turn of a loop is not an instruction of the part, nor the one behind it.
      have apart : loop.start < place ∨ place + part.length < loop.start := by
        obtain ⟨last, ends, plain⟩ := behind
        rcases Nat.lt_trichotomy loop.start (place + part.length) with less | same | more
        · refine Or.inl (Nat.lt_of_not_le fun after => ?_)
          obtain ⟨inner, here, moves⟩ := has.forward forward after less
          cases here.symm.trans at_
          exact moves.op_ne (Or.inr (Or.inl rfl)) isTurn
        · rw [← same] at ends
          cases ends.symm.trans at_
          exact absurd isTurn plain
        · exact Or.inr more
      rcases bound with rfl | rfl
      · omega
      · exact aimed at_ (by omega) (Or.inr exit)

/-- A visit in a piece of code that is laid out leads on with the operands that it says. -/
theorem accepted {outermost : Bool} {next : Places} {held : List Value}
    (leads : visit.LeadsTo position stack)
    (found : visit.machine.frame.code.instrs[visit.position]? = some instr)
    (forward : instr.Forward visit.position stop)
    (accepts : Accepts outermost next visit.position instr ⟨held.length, []⟩)
    (operands : visit.stack = held ++ below) :
    ∃ left, stack = left ++ below ∧ next position ⟨left.length, []⟩ := by
  obtain ⟨action, planned, callers, rfl, leaves⟩ := leads.planned found
  have total : visit.machine.begun.stack.length = held.length + below.length := by
    rw [show visit.machine.begun.stack = visit.stack from rfl, operands, List.length_append]
  have safe := @Machine.plan_accepted σ (visit.world.pass 1000) visit.machine.begun visit.position _
    instr ⟨held.length, []⟩ (accepts.plain forward) rfl nofun
    (Nat.le_trans (Nat.le_add_right _ _) (Nat.le_of_eq total.symm))
  rw [planned] at safe
  cases safe with
  | ok known =>
      cases known with
      | onward place loops rest after same reached runs moved =>
          obtain ⟨results, owed, rfl⟩ := leaves.owed
          have kept : below <:+ action.next.stack := by
            refine List.IsSuffix.trans ?_ (Machine.plan_leaves _ _ _ _ action planned).suffix
            rw [show visit.machine.begun.stack = held ++ below from operands,
              List.drop_append_of_le_length accepts.taken_le]
            exact List.suffix_append _ _
          obtain ⟨more, whole⟩ := kept
          refine ⟨results ++ more, by rw [List.append_assoc, whole], ?_⟩
          have height : (results ++ more).length = after.height := by
            have length : more.length + below.length = rest.length := by
              rw [← List.length_append, whole, same]
            dsimp only at moved
            rw [List.length_append]
            omega
          obtain ⟨height', loops'⟩ := after
          obtain ⟨reached, rfl⟩ := reached
          rw [same, height]
          exact reached
      | leave value rest isReturn => exact absurd isReturn (forward.op_ne (by simp only [or_true]))

end Visit.LeadsTo

/-- The visits have been made in the order of their places, from `start` on and before `stop`. -/
structure Ascends {σ : Type} (start : Nat) (visits : List (Visit σ)) (stop : Nat) : Prop where
  ordered : visits.Pairwise fun later earlier => earlier.position < later.position
  range : ∀ visit ∈ visits, start ≤ visit.position ∧ visit.position < stop

namespace Ascends

variable {σ : Type} {start stop : Nat} {visit : Visit σ} {visits later earlier : List (Visit σ)}

theorem nil : Ascends start ([] : List (Visit σ)) stop :=
  ⟨.nil, fun _ member => nomatch member⟩

theorem cons (before : Ascends start visits visit.position) (after : start ≤ visit.position)
    (further : visit.position < stop) : Ascends start (visit :: visits) stop := by
  refine ⟨.cons (fun other member => (before.range other member).2) before.ordered, ?_⟩
  refine List.forall_mem_cons.mpr ⟨⟨after, further⟩, fun other member => ?_⟩
  have := before.range other member
  omega

theorem late (ascends : Ascends start (later ++ earlier) stop) : Ascends start later stop :=
  ⟨(List.pairwise_append.mp ascends.ordered).1,
    fun visit member => ascends.range visit (List.mem_append_left _ member)⟩

end Ascends

/-- The places a frame has come through since it was at the position `start`, the last instruction
first, and where it is now, whatever has become of its operands. -/
inductive Route {σ : Type} (code : Code) (start : Nat) : List (Visit σ) → Nat → Prop where
  | start : Route code start [] start
  | goesOn {visits : List (Visit σ)} {visit : Visit σ} {position : Nat} {stack : List Value}
      (before : Route code start visits visit.position)
      (same : visit.machine.frame.code = code) (known : visit.machine.frame.LoopsKnown)
      (leads : visit.LeadsTo position stack) :
      Route code start (visit :: visits) position

namespace Route

variable {σ : Type} {code : Code} {start place position : Nat} {part : List Instr}
variable {visits later earlier : List (Visit σ)}

theorem split (route : Route code start (later ++ earlier) position) :
    ∃ place, Route code start earlier place ∧ Route code place later position := by
  induction later generalizing position with
  | nil => exact ⟨_, route, .start⟩
  | cons visit later ih =>
      cases route with
      | goesOn before same known leads =>
          obtain ⟨place, front, back⟩ := ih before
          exact ⟨place, front, .goesOn back same known leads⟩

theorem starts {visit : Visit σ} (route : Route code start (later ++ [visit]) position) :
    visit.position = start := by
  obtain ⟨place, front, _⟩ := route.split
  cases front with
  | goesOn before =>
      generalize visit.position = begins at before
      cases before
      rfl

/-- The first visit of a route. -/
theorem first (route : Route code start visits position) (moved : position ≠ start) :
    ∃ (later : List (Visit σ)) (visit : Visit σ) (place : Nat) (stack : List Value),
      visits = later ++ [visit] ∧ visit.position = start ∧
      visit.machine.frame.code = code ∧ visit.LeadsTo place stack ∧
      Route code place later position := by
  rcases List.eq_nil_or_concat visits with rfl | ⟨later, visit, rfl⟩
  · cases route
    exact absurd rfl moved
  · rw [List.concat_eq_append] at route
    obtain ⟨place, front, back⟩ := route.split
    cases front with
    | goesOn before same known leads =>
        generalize begins : visit.position = here at before
        cases before
        exact ⟨later, visit, place, _, List.concat_eq_append, begins, same, leads, back⟩

/-- A route that only goes on from place to place ends where it starts, or later. -/
theorem le (route : Route code start visits position)
    (before : ∀ visit ∈ visits, visit.position < position) : start ≤ position := by
  rcases Nat.lt_or_ge position start with less | more
  · obtain ⟨later, visit, _, _, rfl, begins, _⟩ := route.first (Nat.ne_of_lt less)
    have := before visit (List.mem_append_right _ (List.mem_singleton_self _))
    omega
  · exact more

/-- The places of a route in order are at least the one that it starts from. -/
theorem ascends (route : Route code place visits position) {least : Nat}
    (ordered : Ascends least visits position) : Ascends place visits position := by
  refine ⟨ordered.ordered, fun visit member => ⟨?_, (ordered.range visit member).2⟩⟩
  rcases List.eq_nil_or_concat visits with rfl | ⟨later, oldest, rfl⟩
  · exact nomatch member
  · rw [List.concat_eq_append] at route ordered member
    have start : oldest.position = place := route.starts
    rcases List.mem_append.mp member with later | last
    · have := (List.pairwise_append.mp ordered.ordered).2.2 visit later oldest
        (List.mem_singleton_self _)
      omega
    · rw [List.mem_singleton.mp last]
      exact Nat.le_of_eq start.symm

theorem code_of_mem (route : Route code start visits position) :
    ∀ visit ∈ visits, visit.machine.frame.code = code := by
  induction route with
  | start => exact fun _ member => nomatch member
  | goesOn before same known leads ih => exact List.forall_mem_cons.mpr ⟨same, ih⟩

/-- Where a route is in a sealed part behind its start, it has come in at the start and gone on from
place to place. -/
theorem entered (route : Route code start visits position) (begins : start ≤ place)
    (inside : Sealed 0 code.instrs.toList place part)
    (forward : Forwards place (place + part.length) part)
    (behind : ∃ instr, code.instrs[place + part.length]? = some instr ∧ instr.op ≠ .iterateForLoop)
    (after : place < position) (before : position ≤ place + part.length) :
    ∃ during earlier, visits = during ++ earlier ∧ Route code start earlier place ∧
      Route code place during position ∧ Ascends place during position := by
  induction route with
  | start => omega
  | @goesOn visits visit position stack route same known leads ih =>
      have has := Code.Has.ofSealed inside
      rcases Nat.lt_or_ge visit.position place with ahead | from_
      · have := leads.fence same known inside forward behind (Or.inl ahead)
        omega
      · rcases Nat.lt_or_ge visit.position (place + part.length) with within | beyond
        · have further := (leads.ahead same has forward from_ within).1
          rcases Nat.eq_or_lt_of_le from_ with rfl | later
          · exact ⟨[visit], visits, rfl, route, .goesOn .start same known leads,
              .cons .nil (Nat.le_refl _) further⟩
          · obtain ⟨during, earlier, rfl, front, back, ascends⟩ := ih later (Nat.le_of_lt within)
            exact ⟨visit :: during, earlier, rfl, front, .goesOn back same known leads,
              .cons ascends from_ further⟩
        · have := leads.fence same known inside forward behind (Or.inr beyond)
          omega

/-- A route from the start of a part is still in it, or has passed through it to its end `stop`. -/
inductive Passing (code : Code) (place stop : Nat) (visits : List (Visit σ)) (position : Nat) :
    Prop where
  | within (before : position < stop) (ascends : Ascends place visits position)
  | beyond {later inner : List (Visit σ)} (split : visits = later ++ inner)
      (front : Route code place inner stop) (ascends : Ascends place inner stop)
      (back : Route code stop later position)

theorem passing_of_le {stop : Nat} (route : Route code place visits position)
    (ascends : Ascends place visits position) (most : position ≤ stop) :
    Passing code place stop visits position := by
  rcases Nat.lt_or_eq_of_le most with before | rfl
  · exact .within before ascends
  · exact .beyond rfl route ascends .start

theorem passes (route : Route code place visits position) (has : code.Has place part)
    (forward : Forwards place (place + part.length) part) :
    Passing code place (place + part.length) visits position := by
  induction route with
  | start => exact passing_of_le .start .nil (Nat.le_add_right _ _)
  | @goesOn visits visit position stack route same known leads ih =>
      cases ih with
      | within before ascends =>
          have after : place ≤ visit.position :=
            route.le fun other member => (ascends.range other member).2
          have further := leads.ahead same has forward after before
          exact passing_of_le (.goesOn route same known leads) (.cons ascends after further.1)
            further.2
      | @beyond later inner split front ascends back =>
          have split : visit :: visits = (visit :: later) ++ inner := congrArg (visit :: ·) split
          exact .beyond split front ascends (.goesOn back same known leads)

end Route

namespace Trail

variable {σ : Type} {code : Code} {start place position : Nat} {base below stack : List Value}
variable {visits later earlier : List (Visit σ)} {part : List Instr}

theorem split (trail : Trail code start base (later ++ earlier) position stack) :
    ∃ place below, Trail code start base earlier place below ∧
      Trail code place below later position stack := by
  induction later generalizing position stack with
  | nil => exact ⟨_, _, trail, .start⟩
  | cons visit later ih =>
      cases trail with
      | goesOn before same known leads =>
          obtain ⟨place, below, front, back⟩ := ih before
          exact ⟨place, below, front, .goesOn back same known leads⟩

/-- The first visit of a trail. -/
theorem first (trail : Trail code start base visits position stack) (moved : position ≠ start) :
    ∃ (later : List (Visit σ)) (visit : Visit σ) (place : Nat) (below : List Value),
      visits = later ++ [visit] ∧ visit.position = start ∧
      visit.stack = base ∧ visit.machine.frame.code = code ∧ visit.LeadsTo place below ∧
      Trail code place below later position stack := by
  rcases List.eq_nil_or_concat visits with rfl | ⟨later, visit, rfl⟩
  · cases trail
    exact absurd rfl moved
  · rw [List.concat_eq_append] at trail
    obtain ⟨place, below, front, back⟩ := trail.split
    cases front with
    | goesOn before same known leads =>
        generalize begins : visit.position = here at before
        generalize holds : visit.stack = held at before
        cases before
        exact ⟨later, visit, place, below, List.concat_eq_append, begins, holds, same, leads, back⟩

theorem route (trail : Trail code start base visits position stack) :
    Route code start visits position := by
  induction trail with
  | start => exact .start
  | goesOn before same known leads ih => exact .goesOn ih same known leads

/-- A trail that only goes on from place to place ends where it starts, or later. -/
theorem le (trail : Trail code start base visits position stack)
    (before : ∀ visit ∈ visits, visit.position < position) : start ≤ position :=
  trail.route.le before

/-- A trail that only goes on from place to place and ends where it starts. -/
theorem nil_of_before (trail : Trail code start base visits start stack)
    (before : ∀ visit ∈ visits, visit.position < start) : visits = [] ∧ stack = base := by
  cases visits with
  | nil =>
      cases trail
      exact ⟨rfl, rfl⟩
  | cons visit visits =>
      cases trail with
      | goesOn earlier same known leads =>
          have latest := before visit (List.mem_cons_self ..)
          obtain ⟨_, first, _, _, rfl, begins, _⟩ := earlier.first (Nat.ne_of_lt latest)
          have := before first (List.mem_cons_of_mem _ (List.mem_append_right _
            (List.mem_singleton_self _)))
          omega

theorem code_of_mem (trail : Trail code start base visits position stack) :
    ∀ visit ∈ visits, visit.machine.frame.code = code :=
  trail.route.code_of_mem

/-- A trail splits where its route does. -/
theorem split_at (trail : Trail code start base (later ++ earlier) position stack)
    (back : Route code place later position) (moved : position ≠ place) :
    ∃ below, Trail code start base earlier place below ∧
      Trail code place below later position stack := by
  obtain ⟨here, below, front, onward⟩ := trail.split
  obtain ⟨_, first, _, _, rfl, begins, _⟩ := back.first moved
  obtain rfl : here = place := onward.route.starts.symm.trans begins
  exact ⟨below, front, onward⟩

/-- Where a trail is in a sealed part behind its start, it has come in at the start and gone on from
place to place. -/
theorem entered (trail : Trail code start base visits position stack) (begins : start ≤ place)
    (inside : Sealed 0 code.instrs.toList place part)
    (forward : Forwards place (place + part.length) part)
    (behind : ∃ instr, code.instrs[place + part.length]? = some instr ∧ instr.op ≠ .iterateForLoop)
    (after : place < position) (before : position ≤ place + part.length) :
    ∃ during earlier below, visits = during ++ earlier ∧
      Trail code start base earlier place below ∧
      Trail code place below during position stack ∧ Ascends place during position := by
  obtain ⟨during, earlier, rfl, -, back, ascends⟩ :=
    trail.route.entered begins inside forward behind after before
  obtain ⟨below, front, onward⟩ := trail.split_at back (Nat.ne_of_gt after)
  exact ⟨during, earlier, below, rfl, front, onward, ascends⟩

/-- A trail from the start of a stretch is still in it, or has passed through it and left one
operand more. -/
theorem passes (trail : Trail code place below visits position stack) (has : code.Has place part)
    (stretch : Stretch place part) :
    (position < place + part.length ∧ Ascends place visits position) ∨
      ∃ later inner value, visits = later ++ inner ∧
        Trail code place below inner (place + part.length) (value :: below) ∧
        Ascends place inner (place + part.length) ∧
        Trail code (place + part.length) (value :: below) later position stack := by
  obtain ⟨places, begun, accepted⟩ := stretch.pushes false (fun _ _ => False) 0 []
  -- Inside of the stretch the trail holds the operands that the slot of its place says.
  have invariant : (∃ held, stack = held ++ below ∧ places position ⟨held.length, []⟩ ∧
        place ≤ position ∧ position < place + part.length ∧ Ascends place visits position) ∨
      ∃ later inner value, visits = later ++ inner ∧
        Trail code place below inner (place + part.length) (value :: below) ∧
        Ascends place inner (place + part.length) ∧
        Trail code (place + part.length) (value :: below) later position stack := by
    induction trail with
    | start =>
        rcases begun with inside | ⟨_, impossible⟩
        · obtain ⟨offset, instr, same, found, _⟩ := accepted _ _ inside
          obtain ⟨within, _⟩ := List.getElem?_eq_some_iff.mp found
          exact Or.inl ⟨[], rfl, inside, Nat.le_refl _, by omega, .nil⟩
        · exact nomatch impossible
    | @goesOn visits visit position stack trail same known leads ih =>
        rcases ih with ⟨held, operands, known', after, before, ascends⟩ |
            ⟨later, inner, value, rfl, front, passed, back⟩
        · obtain ⟨offset, instr, spot, found, accepts⟩ := accepted _ _ known'
          obtain ⟨within, _⟩ := List.getElem?_eq_some_iff.mp found
          have here := has offset within
          have moves := stretch.forward offset instr found
          rw [← spot, ← same, found] at here
          rw [← spot] at moves
          have further := leads.ahead same has stretch.forward after before
          obtain ⟨left, rfl, reached⟩ := leads.accepted here moves accepts operands
          have path := Trail.goesOn trail same known leads
          have passed : Ascends place (visit :: visits) position := .cons ascends after further.1
          rcases reached with inside | ⟨⟨⟩⟩ | ⟨rfl, ends⟩
          · obtain ⟨offset, instr, spot, found, _⟩ := accepted _ _ inside
            obtain ⟨within, _⟩ := List.getElem?_eq_some_iff.mp found
            exact Or.inl ⟨left, rfl, inside, by omega, by omega, passed⟩
          · have single : left.length = 1 := (congrArg Slot.height (Option.some.inj ends)).symm
            obtain ⟨value, rfl⟩ := List.length_eq_one_iff.mp single
            exact Or.inr ⟨[], visit :: visits, value, rfl, path, passed, .start⟩
        · exact Or.inr ⟨visit :: later, inner, value, rfl, front, passed,
            .goesOn back same known leads⟩
  rcases invariant with ⟨_, _, _, _, within, ascends⟩ | passed
  · exact Or.inl ⟨within, ascends⟩
  · exact Or.inr passed

end Trail

end MiniScript
