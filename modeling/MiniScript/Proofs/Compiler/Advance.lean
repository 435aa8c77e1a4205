import MiniScript.Proofs.Code.Placement
import MiniScript.Proofs.Compiler.Laying

/-!
# What writing code does to the builder

While code is written labels are made, and each is bound when its place is reached. A
piece of code may leave labels open behind it, whose places are to be those that are
foretold. Of the labels that were there before it binds none. If the labels have
their places, then the code that it writes is the code that was laid out.
-/

namespace MiniScript

namespace Compiler

/-- A label that is open, and the address that it will be bound to. -/
abbrev OpenLabel := Label × Nat

/-- From one table of labels to a later one: the labels that were there are as they were, and of
those that are new the ones that are listed are open. -/
structure Table (opened : List OpenLabel) (before after : Array (Option Nat)) : Prop where
  grown : before.size ≤ after.size
  kept : ∀ label < before.size, after[label]? = before[label]?
  unbound : ∀ label, before.size ≤ label ∧ after[label]? = some none ↔ label ∈ opened.map (·.1)
  apart : (opened.map (·.1)).Nodup

namespace Table

variable {opened : List OpenLabel} {before middle after : Array (Option Nat)}
variable {label address : Nat}

theorem refl (labels : Array (Option Nat)) : Table [] labels labels where
  grown := Nat.le_refl _
  kept _ _ := rfl
  unbound label := by
    refine iff_of_false ?_ List.not_mem_nil
    rintro ⟨beyond, found⟩
    rw [Array.getElem?_eq_none beyond] at found
    exact nomatch found
  apart := List.nodup_nil

theorem trans (first : Table opened before middle) (second : Table [] middle after) :
    Table opened before after where
  grown := Nat.le_trans first.grown second.grown
  kept label old := by
    rw [second.kept label (Nat.lt_of_lt_of_le old first.grown), first.kept label old]
  unbound label := by
    rw [← first.unbound label]
    refine and_congr_right fun _ => ?_
    by_cases old : label < middle.size
    · rw [second.kept label old]
    · have beyond := Nat.le_of_not_lt old
      refine iff_of_false (fun found => ?_) (fun found => ?_)
      · exact List.not_mem_nil ((second.unbound label).mp ⟨beyond, found⟩)
      · rw [Array.getElem?_eq_none beyond] at found
        exact nomatch found
  apart := first.apart

theorem lt_of_mem (table : Table opened before after) (member : (label, address) ∈ opened) :
    label < after.size := by
  have found := ((table.unbound label).mpr (List.mem_map_of_mem member)).2
  exact (Array.getElem?_eq_some_iff.mp found).1

/-- A label is made. -/
theorem push (table : Table opened before after) (address : Nat) :
    Table (opened ++ [(after.size, address)]) before (after.push none) where
  grown := by
    rw [Array.size_push]
    exact Nat.le_succ_of_le table.grown
  kept label old := by
    have inside := Nat.lt_of_lt_of_le old table.grown
    rw [Array.getElem?_push, if_neg (Nat.ne_of_lt inside), table.kept label old]
  unbound label := by
    rw [List.map_append, List.mem_append, ← table.unbound label, Array.getElem?_push,
      List.map_singleton, List.mem_singleton]
    by_cases new : label = after.size
    · rw [if_pos new]
      exact iff_of_true ⟨new ▸ table.grown, rfl⟩ (Or.inr new)
    · rw [if_neg new]
      exact (or_iff_left new).symm
  apart := by
    rw [List.map_append, List.nodup_append]
    refine ⟨table.apart, List.pairwise_singleton _ _, ?_⟩
    rintro label member other same rfl
    obtain ⟨pair, listed, rfl⟩ := List.mem_map.mp member
    exact absurd (table.lt_of_mem listed) (List.mem_singleton.mp same ▸ Nat.lt_irrefl _)

theorem found (table : Table [] before after) (bound : before[label]? = some (some address)) :
    after[label]? = some (some address) := by
  rw [table.kept label (Array.getElem?_eq_some_iff.mp bound).1, bound]

theorem open_head (table : Table ((label, address) :: opened) before after) :
    after[label]? = some none :=
  ((table.unbound label).mpr List.mem_cons_self).2

/-- The label that has been open for longest is bound. -/
theorem set (table : Table ((label, address) :: opened) before after) (place : Nat) :
    Table opened before (after.set! label (some place)) := by
  have new : before.size ≤ label := ((table.unbound label).mpr List.mem_cons_self).1
  have free := table.open_head
  have other {index : Nat} (ne : index ≠ label) :
      (after.set! label (some place))[index]? = after[index]? := by
    rw [Array.set!_eq_setIfInBounds, Array.getElem?_setIfInBounds_ne (Ne.symm ne)]
  refine ⟨?_, fun index old => ?_, fun index => ?_, (List.nodup_cons.mp table.apart).2⟩
  · rw [Array.set!_eq_setIfInBounds, Array.size_setIfInBounds]
    exact table.grown
  · rw [other (Nat.ne_of_lt (Nat.lt_of_lt_of_le old new)), table.kept index old]
  · by_cases same : index = label
    · subst same
      refine iff_of_false ?_ (List.nodup_cons.mp table.apart).1
      rintro ⟨_, found⟩
      rw [Array.set!_eq_setIfInBounds, Array.getElem?_setIfInBounds_self_of_lt
        (Array.getElem?_eq_some_iff.mp free).1] at found
      exact nomatch found
    · rw [other same, table.unbound index, List.map_cons, List.mem_cons]
      exact or_iff_right same

end Table

/-- Every label has as its place the address that it is bound to, or will be. -/
structure Fits (places : Label → Nat) (labels : Array (Option Nat)) (opened : List OpenLabel) :
    Prop where
  bound : ∀ label address, labels[label]? = some (some address) → places label = address
  ahead : ∀ pair ∈ opened, places pair.1 = pair.2

namespace Fits

variable {places : Label → Nat} {opened : List OpenLabel} {before middle after : Array (Option Nat)}
variable {label address : Nat}

theorem earlier (fits : Fits places after opened) (table : Table [] middle after) :
    Fits places middle opened := by
  refine ⟨fun label address found => fits.bound label address ?_, fits.ahead⟩
  rw [table.kept label (Array.getElem?_eq_some_iff.mp found).1, found]

theorem of_push (fits : Fits places (after.push none) (opened ++ [(after.size, address)])) :
    Fits places after opened := by
  refine ⟨fun label address found => fits.bound label address ?_, fun pair member =>
    fits.ahead pair (List.mem_append_left _ member)⟩
  rw [Array.getElem?_push, if_neg (Nat.ne_of_lt (Array.getElem?_eq_some_iff.mp found).1), found]

theorem of_set (table : Table ((label, address) :: opened) before after)
    (fits : Fits places (after.set! label (some address)) opened) :
    Fits places after ((label, address) :: opened) := by
  have inside := (Array.getElem?_eq_some_iff.mp table.open_head).1
  rw [Array.set!_eq_setIfInBounds] at fits
  refine ⟨fun index place found => fits.bound index place ?_, List.forall_mem_cons.mpr
    ⟨fits.bound label address (Array.getElem?_setIfInBounds_self_of_lt inside), fits.ahead⟩⟩
  have other : label ≠ index := by
    rintro rfl
    rw [table.open_head] at found
    exact nomatch found
  rw [Array.getElem?_setIfInBounds_ne other, found]

end Fits

/-- The labels of a loop are among that many. -/
def LoopTarget.Known (count : Nat) : LoopTarget → Prop
  | .whileLoop start stop => start < count ∧ stop < count
  | .forLoop _ => True

theorem LoopTarget.Known.mono {count more : Nat} {target : LoopTarget} (known : target.Known count)
    (le : count ≤ more) : target.Known more := by
  cases target with
  | whileLoop start stop => exact ⟨Nat.lt_of_lt_of_le known.1 le, Nat.lt_of_lt_of_le known.2 le⟩
  | forLoop id => exact known

namespace State

/-- The labels of the instructions and of the loops have all been made. -/
structure Sound (state : State) : Prop where
  operands : ∀ instr ∈ state.builder.instrs.toList, ∀ label, instr.Has label →
    label < state.builder.labels.size
  targets : ∀ target ∈ state.loops, target.Known state.builder.labels.size

variable {state : State}

/-- A builder that knows at least the same labels, and has no other ones among the operands. -/
theorem Sound.rebuild (sound : state.Sound) {builder : Builder}
    (grown : state.builder.labels.size ≤ builder.labels.size)
    (made : ∀ instr ∈ builder.instrs.toList, instr ∈ state.builder.instrs.toList ∨
      ∀ label, instr.Has label → label < builder.labels.size) :
    { state with builder }.Sound where
  operands instr member label has := by
    rcases made instr member with old | new
    · exact Nat.lt_of_lt_of_le (sound.operands instr old label has) grown
    · exact new label has
  targets target member := (sound.targets target member).mono grown

theorem Sound.apply (sound : state.Sound) (step : Builder.Step)
    (made : ∀ instr ∈ step.instr?, ∀ label, instr.Has label → label < state.builder.labels.size) :
    { state with builder := state.builder.apply step }.Sound := by
  have labels := state.builder.apply_labels step
  refine sound.rebuild (Nat.le_of_eq (congrArg Array.size labels.symm)) fun instr member => ?_
  rw [Builder.apply_instrs, List.mem_append, Option.mem_toList] at member
  rw [labels]
  exact member.imp_right fun new => made instr new

def withLabel (state : State) : State :=
  { state with builder := state.builder.newLabel.2 }

/-- The label is bound to the current place. -/
def bound (state : State) (label : Label) : State :=
  { state with
    builder := { state.builder with
      labels := state.builder.labels.set! label (some state.builder.position) } }

def entering (state : State) (target : LoopTarget) : State :=
  { state with loops := target :: state.loops }

def leaving (state : State) : State :=
  { state with loops := state.loops.tail }

end State

/-- From one state to a later one, steps have been handed to the builder and some labels are open.
What is known of the places of other labels is `given`. -/
structure Advances (given : (Label → Nat) → Prop) (opened : List OpenLabel) (before after : State)
    (steps : List Builder.Step) : Prop where
  loops : after.loops = before.loops
  position : after.builder.position = before.builder.position + (Builder.instrsOf steps).length
  table : Table opened before.builder.labels after.builder.labels
  sound : before.Sound → after.Sound
  written : ∀ places, Fits places after.builder.labels opened → given places →
    after.builder.placed places = (before.builder.placed places).applyAll steps

namespace Advances

variable {given inside : (Label → Nat) → Prop} {opened : List OpenLabel}
variable {before middle after : State} {steps more : List Builder.Step}
variable {instr : Instr} {label address : Nat}

/-- The builder and the loops are as they were. -/
theorem still (builder : after.builder = before.builder) (loops : after.loops = before.loops) :
    Advances given [] before after [] where
  loops := loops
  position := by rw [builder]; rfl
  table := builder ▸ .refl _
  sound known := ⟨builder ▸ known.operands, builder ▸ loops ▸ known.targets⟩
  written _ _ _ := by rw [builder]; rfl

theorem refl (given : (Label → Nat) → Prop) (state : State) : Advances given [] state state [] :=
  still rfl rfl

theorem reaches (chain : Advances given opened before after steps) {position target : Nat}
    (here : before.builder.position = position)
    (there : position + (Builder.instrsOf steps).length = target) :
    after.builder.position = target := by
  rw [chain.position, here, there]

theorem apply (chain : Advances given opened before middle steps) (step : Builder.Step)
    {laid : Builder.Step}
    (made : ∀ instr ∈ step.instr?, middle.Sound → ∀ label, instr.Has label →
      label < middle.builder.labels.size)
    (count : (Builder.instrsOf [laid]).length = (Builder.instrsOf [step]).length)
    (same : ∀ places, Fits places middle.builder.labels opened → given places →
      step.placed places = laid) :
    Advances given opened before { middle with builder := middle.builder.apply step }
      (steps ++ [laid]) where
  loops := chain.loops
  position := by
    have grows := congrArg List.length (middle.builder.apply_instrs step)
    rw [Array.length_toList, List.length_append, Array.length_toList] at grows
    rw [Builder.position, grows, Builder.instrsOf, List.filterMap_append, List.length_append,
      ← Nat.add_assoc]
    refine congr (congrArg _ chain.position) ?_
    rw [← Builder.instrsOf, count]
    cases step <;> rfl
  table := by
    have labels := middle.builder.apply_labels step
    show Table opened before.builder.labels (middle.builder.apply step).labels
    rw [labels]
    exact chain.table
  sound known := (chain.sound known).apply step fun instr new => made instr new (chain.sound known)
  written places fits known := by
    have labels := middle.builder.apply_labels step
    rw [show ({ middle with builder := middle.builder.apply step } : State).builder.labels =
      (middle.builder.apply step).labels from rfl, labels] at fits
    rw [Builder.applyAll_append, ← chain.written places fits known, Builder.placed_apply,
      same places fits known]
    rfl

/-- A step without labels. -/
theorem applyPlain (chain : Advances given opened before middle steps) (step : Builder.Step)
    (plain : ∀ instr ∈ step.instr?, instr.IsPlain) :
    Advances given opened before { middle with builder := middle.builder.apply step }
      (steps ++ [step]) := by
  refine chain.apply step
    (fun instr new _ label has => absurd has ((plain instr new).not_has label))
    rfl fun places _ _ => ?_
  cases step with
  | emit instr => rw [Builder.Step.placed, instr.placed_of_isPlain places (plain instr rfl)]
  | emitUnmapped instr => rw [Builder.Step.placed, instr.placed_of_isPlain places (plain instr rfl)]
  | openSource line => rfl
  | closeSource => rfl

theorem openSource (chain : Advances given opened before middle steps) (line : Nat) :
    Advances given opened before { middle with builder := middle.builder.openSource line }
      (steps ++ [.openSource line]) := by
  refine chain.applyPlain (.openSource line) ?_
  rintro instr ⟨⟩

theorem closeSource (chain : Advances given opened before middle steps) :
    Advances given opened before { middle with builder := middle.builder.closeSource }
      (steps ++ [.closeSource]) := by
  refine chain.applyPlain .closeSource ?_
  rintro instr ⟨⟩

theorem emit (chain : Advances given opened before middle steps) (instr : Instr)
    (plain : instr.IsPlain) :
    Advances given opened before { middle with builder := middle.builder.emit instr }
      (steps ++ emitSteps [instr]) :=
  chain.applyPlain (.emit instr) fun _ new => Option.some.inj new ▸ plain

theorem emitAll (chain : Advances given opened before middle steps) {instrs : List Instr}
    (plain : ∀ instr ∈ instrs, instr.IsPlain) :
    Advances given opened before
      { middle with builder := instrs.foldl Builder.emit middle.builder }
      (steps ++ emitSteps instrs) := by
  induction instrs generalizing middle steps with
  | nil => exact (List.append_nil steps).symm ▸ chain
  | cons instr rest ih =>
      rw [List.forall_mem_cons] at plain
      have whole := ih (chain.emit instr plain.1) plain.2
      rw [List.append_assoc] at whole
      exact whole

/-- A step whose labels have been made, and have places that are known. -/
theorem stepLabelled (chain : Advances given opened before middle steps)
    (wrap : Instr → Builder.Step) {laid : Instr}
    (wraps : ∀ instr, (wrap instr).instr? = some instr)
    (placed : ∀ places instr, (wrap instr).placed places = wrap (instr.placed places))
    (made : middle.Sound → ∀ label, instr.Has label → label < middle.builder.labels.size)
    (same : ∀ places, Fits places middle.builder.labels opened → given places →
      instr.placed places = laid) :
    Advances given opened before { middle with builder := middle.builder.apply (wrap instr) }
      (steps ++ [wrap laid]) := by
  refine chain.apply (wrap instr) (fun other new => ?_) ?_ fun places fits known => ?_
  · rw [wraps] at new
    cases new
    exact made
  · rw [Builder.instrsOf, Builder.instrsOf, List.filterMap_cons_some (wraps _),
      List.filterMap_cons_some (wraps _)]
    rfl
  · rw [placed, same places fits known]

theorem emitLabelled (chain : Advances given opened before middle steps) {laid : Instr}
    (made : middle.Sound → ∀ label, instr.Has label → label < middle.builder.labels.size)
    (same : ∀ places, Fits places middle.builder.labels opened → given places →
      instr.placed places = laid) :
    Advances given opened before { middle with builder := middle.builder.emit instr }
      (steps ++ emitSteps [laid]) :=
  chain.stepLabelled .emit (fun _ => rfl) (fun _ _ => rfl) made same

theorem jumpToward_has {op : Opcode} {other : Label} (has : (jumpToward op label).Has other) :
    other = label := by
  rcases has with same | same
  · cases same
    rfl
  · cases same

/-- A jump toward a label whose place is known. -/
theorem emitToward (chain : Advances given opened before middle steps) (op : Opcode)
    (made : middle.Sound → label < middle.builder.labels.size)
    (place : ∀ places, Fits places middle.builder.labels opened → given places →
      places label = address) :
    Advances given opened before
      { middle with builder := middle.builder.emit (jumpToward op label) }
      (steps ++ emitSteps [jumpTo op address]) := by
  refine chain.emitLabelled (fun sound other has => jumpToward_has has ▸ made sound)
    fun places fits known => ?_
  rw [← place places fits known]
  rfl

/-- A jump toward an open label. -/
theorem emitAhead (chain : Advances given opened before middle steps) (op : Opcode)
    (member : (label, address) ∈ opened) :
    Advances given opened before
      { middle with builder := middle.builder.emit (jumpToward op label) }
      (steps ++ emitSteps [jumpTo op address]) :=
  chain.emitToward op (fun _ => chain.table.lt_of_mem member) fun _ fits _ => fits.ahead _ member

/-- The instruction that takes the next item, or leaves the loop for an open label. -/
theorem iterateAhead (chain : Advances given opened before middle steps) (id : Int)
    (member : (label, address) ∈ opened) :
    Advances given opened before
      { middle with
        builder := middle.builder.emit
          { op := .iterateForLoop, first := .int id, second := .label label } }
      (steps ++
        emitSteps [{ op := .iterateForLoop, first := .int id, second := .addr address }]) := by
  refine chain.emitLabelled (fun _ other has => ?_) fun places fits _ => ?_
  · rcases has with same | same
    · cases same
    · cases same
      exact chain.table.lt_of_mem member
  · have place : places label = address := fits.ahead _ member
    rw [← place]
    rfl

/-- A jump toward an open label that belongs to no line. -/
theorem emitUnmappedAhead (chain : Advances given opened before middle steps) (op : Opcode)
    (member : (label, address) ∈ opened) :
    Advances given opened before
      { middle with builder := middle.builder.emitUnmapped (jumpToward op label) }
      (steps ++ [.emitUnmapped (jumpTo op address)]) := by
  refine chain.stepLabelled .emitUnmapped (fun _ => rfl) (fun _ _ => rfl)
    (fun _ other has => jumpToward_has has ▸ chain.table.lt_of_mem member) fun places fits _ => ?_
  have place : places label = address := fits.ahead _ member
  rw [← place]
  rfl

theorem newLabel (chain : Advances given opened before middle steps) (address : Nat) :
    Advances given (opened ++ [(middle.builder.labels.size, address)]) before middle.withLabel
      steps where
  loops := chain.loops
  position := chain.position
  table := chain.table.push address
  sound known := by
    have sound := chain.sound known
    refine sound.rebuild ?_ fun instr member => Or.inl member
    rw [Builder.newLabel, Array.size_push]
    exact Nat.le_succ _
  written places fits known := chain.written places fits.of_push known

/-- Two labels, made one after the other. -/
theorem newLabels (given : (Label → Nat) → Prop) (state : State) (first second : Nat) :
    Advances given
      [(state.builder.labels.size, first), (state.withLabel.builder.labels.size, second)]
      state state.withLabel.withLabel [] :=
  ((refl given state).newLabel first).newLabel second

/-- The label that has been open for longest is bound, where it was to be. -/
theorem bind (chain : Advances given ((label, address) :: opened) before middle steps)
    (here : middle.builder.position = address) :
    Advances given opened before (middle.bound label) steps where
  loops := chain.loops
  position := chain.position
  table := chain.table.set _
  sound known := by
    refine (chain.sound known).rebuild (Nat.le_of_eq ?_) fun instr member => Or.inl member
    rw [Array.set!_eq_setIfInBounds, Array.size_setIfInBounds]
  written places fits known := by
    refine chain.written places (.of_set chain.table ?_) known
    rw [← here]
    exact fits

theorem bound_at (chain : Advances given ((label, address) :: opened) before middle steps)
    (here : middle.builder.position = address) :
    (middle.bound label).builder.labels[label]? = some (some address) := by
  rw [State.bound, Array.set!_eq_setIfInBounds, here]
  exact Array.getElem?_setIfInBounds_self_of_lt (chain.table.lt_of_mem List.mem_cons_self)

theorem bind_run (chain : Advances given ((label, address) :: opened) before middle steps) :
    (bindLabel label).run middle = .ok ((), middle.bound label) := by
  have bound : middle.builder.bind label = .ok (middle.bound label).builder := by
    rw [Builder.bind, chain.table.open_head]
    rfl
  show (liftM (middle.builder.bind label) >>= fun builder =>
    (set { middle with builder } : Compile Unit)).run middle = _
  rw [bound]
  rfl

/-- A piece with labels of its own, and what has to be done before it and after it besides. -/
theorem splice (chain : Advances given opened before middle steps) {entered left : State}
    (inner : Advances inside [] entered after more) (begins : entered.builder = middle.builder)
    (ends : left.builder = after.builder) (loops : left.loops = before.loops)
    (sound : middle.Sound → left.Sound)
    (implies : ∀ places, Fits places middle.builder.labels opened → given places → inside places) :
    Advances given opened before left (steps ++ more) where
  loops := loops
  position := by
    rw [ends, inner.position, begins, chain.position, Nat.add_assoc]
    refine congrArg _ ?_
    simp only [Builder.instrsOf, List.filterMap_append, List.length_append]
  table := ends ▸ chain.table.trans (begins ▸ inner.table)
  sound known := sound (chain.sound known)
  written places fits known := by
    rw [ends] at fits ⊢
    have early := fits.earlier (begins ▸ inner.table)
    rw [Builder.applyAll_append, ← chain.written places early known, ← begins]
    exact inner.written places ⟨fits.bound, List.forall_mem_nil _⟩ (implies places early known)

theorem append (chain : Advances given opened before middle steps)
    (inner : Advances given [] middle after more) :
    Advances given opened before after (steps ++ more) :=
  chain.splice inner rfl rfl (inner.loops.trans chain.loops) inner.sound fun _ _ known => known

/-- The statements of a loop. -/
theorem loopBody (chain : Advances given opened before middle steps) {target : LoopTarget}
    (inner : Advances inside [] (middle.entering target) after more)
    (known : target.Known middle.builder.labels.size)
    (implies : ∀ places, Fits places middle.builder.labels opened → given places → inside places) :
    Advances given opened before after.leaving (steps ++ more) := by
  have around : after.leaving.loops = middle.loops := congrArg List.tail inner.loops
  refine chain.splice inner rfl rfl (around.trans chain.loops) (fun sound => ?_) implies
  have later := inner.sound ⟨sound.operands, List.forall_mem_cons.mpr ⟨known, sound.targets⟩⟩
  exact ⟨later.operands, fun target member => later.targets target (List.mem_of_mem_tail member)⟩

end Advances

end Compiler

end MiniScript
