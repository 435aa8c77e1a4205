import MiniScript.Proofs.Compiler.Advance
import MiniScript.Proofs.Compiler.Layout

/-!
# Writing as it is laid out

A computation of the compiler and the layout of the same piece go along with each
other: one fails if the other does, and with the same error. When all of a body is
written and every label is bound, its code is finished as it is laid out.
-/

namespace MiniScript

namespace Compiler

theorem emitSteps_append (first second : List Instr) :
    emitSteps (first ++ second) = emitSteps first ++ emitSteps second :=
  List.map_append

/-- The definitions are those of the layout, and the next loop has the same number. -/
def Mirrors (written : State) (laid : LayState) : Prop :=
  written.functions = laid.functions ∧ written.nextLoop.toNat = laid.nextLoop % UInt32.size

section

variable {α β γ δ : Type}

/-- A computation of the compiler fails as the laying out does, or both succeed. -/
def Follows (write : Compile α) (lay : Lay β) (before : State) (laid : LayState)
    (post : α → State → β → LayState → Prop) : Prop :=
  match lay.run laid with
  | .error error => write.run before = .error error
  | .ok (result, final) =>
      ∃ value after, write.run before = .ok (value, after) ∧ post value after result final

namespace Follows

variable {write : Compile α} {next : α → Compile γ} {lay : Lay β} {rest : β → Lay δ}
variable {before middle after : State} {laid between : LayState}

theorem bind {mid : α → State → β → LayState → Prop} {post : γ → State → δ → LayState → Prop}
    (first : Follows write lay before laid mid)
    (andThen : ∀ value after result final, Yields lay laid result final →
      mid value after result final → Follows (next value) (rest result) after final post) :
    Follows (write >>= next) (lay >>= rest) before laid post := by
  unfold Follows at first
  cases laidOut : lay.run laid with
  | error error =>
      rw [laidOut] at first
      have fails : (lay >>= rest).run laid = .error error := by
        rw [StateT.run_bind, laidOut]
        rfl
      rw [Follows, fails]
      show (write >>= next).run before = .error error
      rw [StateT.run_bind, first]
      rfl
  | ok pair =>
      obtain ⟨result, final⟩ := pair
      rw [laidOut] at first
      obtain ⟨value, after, wrote, known⟩ := first
      have later := andThen value after result final laidOut known
      have goesOn : (lay >>= rest).run laid = (rest result).run final := by
        rw [StateT.run_bind, laidOut]
        rfl
      have writes : (write >>= next).run before = (next value).run after := by
        rw [StateT.run_bind, wrote]
        rfl
      rw [Follows, goesOn, writes]
      exact later

/-- The compiler does something that the layout need not. -/
theorem first {post : γ → State → β → LayState → Prop} {value : α}
    (ran : write.run before = .ok (value, middle))
    (andThen : Follows (next value) lay middle laid post) :
    Follows (write >>= next) lay before laid post := by
  have writes : (write >>= next).run before = (next value).run middle := by
    rw [StateT.run_bind, ran]
    rfl
  rw [Follows, writes]
  exact andThen

/-- The layout does something that the compiler need not. -/
theorem meanwhile {post : α → State → δ → LayState → Prop} {result : β}
    (ran : Yields lay laid result between)
    (andThen : Follows write (rest result) before between post) :
    Follows write (lay >>= rest) before laid post := by
  have goesOn : (lay >>= rest).run laid = (rest result).run between := by
    rw [StateT.run_bind, ran]
    rfl
  rw [Follows, goesOn]
  exact andThen

theorem look {post : α → State → δ → LayState → Prop} {rest : LayState → Lay δ}
    (andThen : Follows write (rest laid) before laid post) :
    Follows write (get >>= rest) before laid post :=
  meanwhile (yields_get.mpr ⟨rfl, rfl⟩) andThen

theorem reset {post : α → State → δ → LayState → Prop} {rest : PUnit → Lay δ}
    (andThen : Follows write (rest ⟨⟩) before between post) :
    Follows write (set between >>= rest) before laid post :=
  meanwhile (yields_set.mpr rfl) andThen

theorem done {post : α → State → β → LayState → Prop} {value : α} {result : β}
    (ran : write.run before = .ok (value, after)) (holds : post value after result laid) :
    Follows write (pure result) before laid post :=
  ⟨value, after, ran, holds⟩

/-- A result of the layout that only has to be put into another form. -/
theorem map {mid : α → State → β → LayState → Prop} {post : α → State → δ → LayState → Prop}
    {change : β → δ} (follows : Follows write lay before laid mid)
    (holds : ∀ value after result final, mid value after result final →
      post value after (change result) final) :
    Follows write (lay >>= fun result => pure (change result)) before laid post := by
  have whole : Follows (write >>= pure) (lay >>= fun result => pure (change result)) before laid
      post := follows.bind fun value after result final _ known =>
        .done rfl (holds value after result final known)
  rwa [bind_pure] at whole

theorem imp {post expected : α → State → β → LayState → Prop}
    (follows : Follows write lay before laid post)
    (holds : ∀ value after result final, post value after result final →
      expected value after result final) :
    Follows write lay before laid expected := by
  unfold Follows at follows ⊢
  split at follows
  · exact follows
  · obtain ⟨value, after, wrote, known⟩ := follows
    exact ⟨value, after, wrote, holds _ _ _ _ known⟩

theorem reject {post : α → State → β → LayState → Prop} (fault : CompileFault) (line : Nat) :
    Follows (Compiler.reject fault line) (Compiler.reject fault line) before laid post :=
  rfl

theorem lift {outcome : Except CompileError α} {next : α → Compile γ} {rest : α → Lay δ}
    {post : γ → State → δ → LayState → Prop}
    (andThen : ∀ value, Follows (next value) (rest value) before laid post) :
    Follows (liftM outcome >>= next) (liftM outcome >>= rest) before laid post := by
  cases outcome with
  | error error => exact rfl
  | ok value => exact andThen value

theorem ite {post : α → State → β → LayState → Prop} {condition : Prop} [Decidable condition]
    {other : Compile α} {otherwise : Lay β}
    (holds : condition → Follows write lay before laid post)
    (fails : ¬ condition → Follows other otherwise before laid post) :
    Follows (if condition then write else other) (if condition then lay else otherwise) before laid
      post := by
  by_cases known : condition
  · rw [if_pos known, if_pos known]
    exact holds known
  · rw [if_neg known, if_neg known]
    exact fails known

end Follows

end

theorem Advances.code {given : (Label → Nat) → Prop} {opened : List OpenLabel}
    {before after : State} {steps : List Builder.Step} {code : List Instr}
    (chain : Advances given opened before after steps) (same : steps = emitSteps code) :
    Advances given opened before after (emitSteps code) :=
  same ▸ chain

theorem Advances.place {given : (Label → Nat) → Prop} {before after : State} {position : Nat}
    {code : List Instr} (chain : Advances given [] before after (emitSteps code))
    (here : before.builder.position = position) :
    after.builder.position = position + code.length := by
  rw [chain.position, here, instrsOf_emitSteps]

theorem start_mirrors (sourceName : Option String) (functions : Array Definition) :
    Mirrors (.start sourceName functions) ⟨functions, 0⟩ :=
  ⟨rfl, rfl⟩

theorem start_sound (sourceName : Option String) (functions : Array Definition) :
    (State.start sourceName functions).Sound where
  operands _ member := nomatch member
  targets _ member := nomatch member

theorem newLoop_mirrors {before : State} {laid : LayState} (mirrors : Mirrors before laid) :
    Mirrors { before with nextLoop := before.nextLoop + 1 }
      { laid with nextLoop := laid.nextLoop + 1 } := by
  refine ⟨mirrors.1, ?_⟩
  show (before.nextLoop + 1).toNat = (laid.nextLoop + 1) % UInt32.size
  rw [UInt32.toNat_add, mirrors.2, Nat.mod_add_mod]
  rfl

section

variable (state : State)

theorem build_run (change : Builder → Builder) :
    (build change).run state = .ok ((), { state with builder := change state.builder }) :=
  rfl

theorem emit_run (instr : Instr) :
    (emit instr).run state = .ok ((), { state with builder := state.builder.emit instr }) :=
  build_run state _

theorem emitAll_run (instrs : List Instr) : (emitAll instrs).run state =
    .ok ((), { state with builder := instrs.foldl Builder.emit state.builder }) :=
  build_run state _

theorem emitUnmapped_run (instr : Instr) : (emitUnmapped instr).run state =
    .ok ((), { state with builder := state.builder.emitUnmapped instr }) :=
  build_run state _

theorem openSource_run (line : Nat) : (openSource line).run state =
    .ok ((), { state with builder := state.builder.openSource line }) :=
  build_run state _

theorem closeSource_run : closeSource.run state =
    .ok ((), { state with builder := state.builder.closeSource }) :=
  build_run state _

theorem newLoop_run : newLoop.run state =
    .ok (state.nextLoop, { state with nextLoop := state.nextLoop + 1 }) :=
  rfl

theorem enterLoop_run (target : LoopTarget) :
    (enterLoop target).run state = .ok ((), state.entering target) :=
  rfl

theorem leaveLoop_run : leaveLoop.run state = .ok ((), state.leaving) :=
  rfl

theorem innermostLoop_run : innermostLoop.run state = .ok (state.loops.head?, state) :=
  rfl

theorem beginBody_run (sourceName : Option String) : (beginBody sourceName).run state =
    .ok (state, .start sourceName state.functions) :=
  rfl

theorem resumeBody_run (outer : State) : (resumeBody outer).run state =
    .ok ((), { outer with functions := state.functions }) :=
  rfl

theorem addFunction_run (definition : Definition) : (addFunction definition).run state =
    .ok (⟨state.functions.size⟩,
      { state with functions := state.functions.push definition }) :=
  rfl

theorem newLabel_run : newLabel.run state = .ok (state.builder.labels.size, state.withLabel) :=
  rfl

end

theorem pushText_plain (text : String) : (pushValue (.text text)).IsPlain :=
  ⟨rfl, rfl⟩

theorem beforeStore_plain (op : Option BinaryOp) : ∀ instr ∈ beforeStore op, instr.IsPlain := by
  cases op with
  | none => exact List.forall_mem_nil _
  | some op =>
      exact List.forall_mem_cons.mpr ⟨⟨rfl, rfl⟩, List.forall_mem_singleton.mpr ⟨rfl, rfl⟩⟩

theorem store_plain (op : Option BinaryOp) :
    ∀ instr ∈ combine op ++ [{ op := .assignIndex }], instr.IsPlain := by
  refine List.forall_mem_append.mpr ⟨?_, List.forall_mem_singleton.mpr ⟨rfl, rfl⟩⟩
  cases op with
  | none => exact List.forall_mem_nil _
  | some op => exact List.forall_mem_singleton.mpr ⟨rfl, rfl⟩

variable {sourceName : Option String}

/-- With all labels bound, the code is finished as it is laid out. -/
theorem finishBody_agrees {functions : Array Definition} {after : State} {laid : LayState}
    {steps : List Builder.Step} (kind : BodyKind) (stmts : List Stmt)
    (wrote : Advances (fun _ => True) [] (.start sourceName functions) after steps) :
    Follows (finishBody kind stmts) (liftM (assemble sourceName kind stmts steps)) after laid
      fun code final result between =>
        code = result ∧ final.functions = after.functions ∧ between = laid := by
  have plain : ∀ instr ∈ if endsInReturn stmts then [] else closing kind, instr.IsPlain := by
    split
    · exact List.forall_mem_nil _
    · exact closing_plain kind
  have closed := wrote.emitAll plain
  generalize finishes : ({ after with builder := _ } : State) = ended at closed
  have sound := closed.sound (start_sound sourceName functions)
  let places (label : Label) : Nat := (ended.builder.labels[label]?.join).getD 0
  have fits : Fits places ended.builder.labels [] := by
    refine ⟨fun label address found => ?_, List.forall_mem_nil _⟩
    show (ended.builder.labels[label]?.join).getD 0 = address
    rw [found]
    rfl
  have bound : ∀ instr ∈ ended.builder.instrs.toList,
      Builder.Bound places ended.builder.labels instr := by
    intro instr member label has
    obtain ⟨entry, found⟩ : ∃ entry, ended.builder.labels[label]? = some entry :=
      ⟨_, Array.getElem?_eq_getElem (sound.operands instr member label has)⟩
    cases entry with
    | none => exact absurd ((closed.table.unbound label).mp ⟨Nat.zero_le _, found⟩) List.not_mem_nil
    | some address => rw [found, fits.bound label address found]
  have written : ended.builder.placed places =
      (({ sourceName } : Builder).placed places).applyAll _ := closed.written places fits trivial
  have same : ended.builder.finish = assemble sourceName kind stmts steps := by
    rw [Builder.finish_placed bound, written, Builder.placed_fresh, assemble, apply_ite emitSteps]
    rfl
  refine .first (emitAll_run _ _) ?_
  rw [finishes]
  show Follows (get >>= fun state : State => liftM state.builder.finish) _ ended laid _
  refine .first rfl ?_
  rw [same]
  cases assembled : assemble sourceName kind stmts steps with
  | error error => exact rfl
  | ok code => exact ⟨code, ended, rfl, rfl, finishes ▸ rfl, rfl⟩

end Compiler

end MiniScript
