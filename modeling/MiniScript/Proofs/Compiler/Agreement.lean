import MiniScript.Proofs.Compiler.Follows

/-!
# The compiler writes what is laid out

By recursion on the tree: the compiler hands to its builder what the tree is laid out
as, with labels that get the addresses of the layout, or fails with the same error.
No label is bound twice or left open, so the code of a body is the one that
is laid out.
-/

namespace MiniScript

namespace Compiler

variable {sourceName : Option String}

/-- From wherever it is, the compiler comes to where the layout is, with that code. -/
structure Agrees (write : Compile Unit) (lay : Nat → Lay (List Instr)) : Prop where
  follows : ∀ {before : State} {laid : LayState} {position : Nat} (given : (Label → Nat) → Prop),
    before.builder.position = position → Mirrors before laid →
      Follows write (lay position) before laid fun _ after code final =>
        Mirrors after final ∧ Advances given [] before after (emitSteps code)

/-- Where `break` and `continue` lead in the loop around a statement and in its layout. -/
inductive Around (given : (Label → Nat) → Prop) : Option LoopTarget → Option LoopPlace → Prop
  | outside : Around given none none
  | whileLoop {start stop : Label} {first last : Nat}
      (begins : ∀ places, given places → places start = first)
      (ends : ∀ places, given places → places stop = last) :
      Around given (some (.whileLoop start stop)) (some (.whileLoop first last))
  | forLoop {id : UInt32} {number : Nat} (same : id.toNat = number) :
      Around given (some (.forLoop id)) (some (.forLoop number))

/-- The same for statements, in a loop or outside of loops. -/
structure AgreesBlock (write : Compile Unit)
    (lay : Nat → Option LoopPlace → Lay (List Builder.Step)) : Prop where
  follows : ∀ {before : State} {laid : LayState} {position : Nat} {loop : Option LoopPlace}
    (given : (Label → Nat) → Prop), Around given before.loops.head? loop →
      before.builder.position = position → Mirrors before laid →
        Follows write (lay position loop) before laid fun _ after steps final =>
          Mirrors after final ∧ Advances given [] before after steps

/-- The same for the links of a comparison chain, which may jump to a label that is known. -/
structure AgreesLinks (write : Label → Compile Unit) (lay : Nat → Nat → Lay (List Instr)) :
    Prop where
  follows : ∀ {before : State} {laid : LayState} {failure : Label} {failAt position : Nat}
    (given : (Label → Nat) → Prop), failure < before.builder.labels.size →
      (∀ places, given places → places failure = failAt) →
        before.builder.position = position → Mirrors before laid →
          Follows (write failure) (lay failAt position) before laid fun _ after code final =>
            Mirrors after final ∧ Advances given [] before after (emitSteps code)

/-- Wherever the statements stand, there are that many instructions. -/
def Measures (size : Nat) (lay : Nat → Option LoopPlace → Lay (List Builder.Step)) : Prop :=
  ∀ position loop before steps after, Yields (lay position loop) before steps after →
    (Builder.instrsOf steps).length = size

namespace Agrees

variable {write next : Compile Unit} {lay following : Nat → Lay (List Instr)}

theorem emitAll {instrs : List Instr} (plain : ∀ instr ∈ instrs, instr.IsPlain) :
    Agrees (emitAll instrs) fun _ => pure instrs where
  follows given _ mirrors := .done rfl ⟨mirrors, (Advances.refl given _).emitAll plain⟩

theorem emit {instr : Instr} (plain : instr.IsPlain) : Agrees (emit instr) fun _ => pure [instr] :=
  emitAll (List.forall_mem_singleton.mpr plain)

/-- One piece of code after another. -/
theorem append (first : Agrees write lay) (second : Agrees next following) :
    Agrees (write >>= fun _ => next) fun position => do
      let code ← lay position
      let more ← following (position + code.length)
      return code ++ more where
  follows given here mirrors := by
    refine (first.follows given here mirrors).bind
      fun _ middle code between _ ⟨mirrors, early⟩ => ?_
    refine (second.follows given (early.place here) mirrors).map
      fun _ after more final ⟨mirrors, late⟩ => ⟨mirrors, ?_⟩
    exact (early.append late).code (emitSteps_append code more).symm

/-- Code and instructions without labels after it. -/
theorem thenEmitAll (first : Agrees write lay) {instrs : List Instr}
    (plain : ∀ instr ∈ instrs, instr.IsPlain) :
    Agrees (write >>= fun _ => Compiler.emitAll instrs) fun position => do
      return (← lay position) ++ instrs := by
  have whole := first.append (emitAll plain)
  simp only [pure_bind] at whole
  exact whole

theorem thenEmit (first : Agrees write lay) {instr : Instr}
    (plain : instr.IsPlain) :
    Agrees (write >>= fun _ => Compiler.emit instr) fun position => do
      return (← lay position) ++ [instr] :=
  first.thenEmitAll (List.forall_mem_singleton.mpr plain)

/-- Two operands and the instruction for both. -/
theorem two {instr : Instr} (first : Agrees write lay) (second : Agrees next following)
    (plain : instr.IsPlain) :
    Agrees (do
      write
      next
      Compiler.emit instr) fun position => do
        let code ← lay position
        let more ← following (position + code.length)
        return code ++ more ++ [instr] := by
  have whole := (first.append second).thenEmit plain
  simp only [bind_assoc, pure_bind] at whole
  exact whole

/-- Two operands and then a third piece of code. -/
theorem also {third : Compile Unit} {last : Nat → Lay (List Instr)} (first : Agrees write lay)
    (second : Agrees next following) (rest : Agrees third last) :
    Agrees (do
      write
      next
      third) fun position => do
        let code ← lay position
        let more ← following (position + code.length)
        let others ← last (position + code.length + more.length)
        return code ++ more ++ others := by
  have whole := (first.append second).append rest
  simp only [bind_assoc, pure_bind, List.length_append, ← Nat.add_assoc] at whole
  exact whole

theorem three {third : Compile Unit} {last : Nat → Lay (List Instr)} {instr : Instr}
    (first : Agrees write lay) (second : Agrees next following) (rest : Agrees third last)
    (plain : instr.IsPlain) :
    Agrees (do
      write
      next
      third
      Compiler.emit instr) fun position => do
        let code ← lay position
        let more ← following (position + code.length)
        let others ← last (position + code.length + more.length)
        return code ++ more ++ others ++ [instr] := by
  have whole := (first.also second rest).thenEmit plain
  simp only [bind_assoc, pure_bind] at whole
  exact whole

/-- One instruction, a piece of code and instructions after it. -/
theorem within {instr : Instr} {instrs : List Instr} (code : Agrees write lay)
    (opens : instr.IsPlain) (closes : ∀ instr ∈ instrs, instr.IsPlain) :
    Agrees (do
      Compiler.emit instr
      write
      Compiler.emitAll instrs) fun position => do
        let code ← lay (position + 1)
        return [instr] ++ code ++ instrs := by
  have whole := ((emit opens).append code).thenEmitAll closes
  simp only [bind_assoc, pure_bind] at whole
  exact whole

/-- A target, the instruction for the name of its method, the operands and the call. -/
theorem method {name call : Instr} (target : Agrees write lay) (operands : Agrees next following)
    (named : name.IsPlain) (calls : call.IsPlain) :
    Agrees (do
      write
      Compiler.emit name
      next
      Compiler.emit call) fun position => do
        let code ← lay position
        let more ← following (position + code.length + 1)
        return code ++ [name] ++ more ++ [call] := by
  have whole := ((target.thenEmit named).append operands).thenEmit calls
  simp only [bind_assoc, pure_bind, List.length_append, List.length_singleton,
    ← Nat.add_assoc] at whole
  exact whole

theorem store (key : Agrees write lay) (op : Option BinaryOp) (value : Agrees next following) :
    Agrees (do
      write
      Compiler.emitAll (beforeStore op)
      next
      Compiler.emitAll (combine op ++ [{ op := .assignIndex }])) fun position => do
        let code ← lay position
        let before := code ++ beforeStore op
        let more ← following (position + before.length)
        return before ++ more ++ combine op ++ [{ op := .assignIndex }] := by
  have whole := ((key.thenEmitAll (beforeStore_plain op)).append value).thenEmitAll (store_plain op)
  simp only [bind_assoc, pure_bind, ← List.append_assoc] at whole
  exact whole

theorem ite {condition : Prop} [Decidable condition] (holds : condition → Agrees write lay)
    (fails : ¬ condition → Agrees next following) :
    Agrees (if condition then write else next) fun position =>
      if condition then lay position else following position where
  follows given here mirrors := .ite (fun known => (holds known).follows given here mirrors)
    fun known => (fails known).follows given here mirrors

theorem rejects (fault : CompileFault) (line : Nat) :
    Agrees (reject fault line) fun _ => Compiler.reject fault line where
  follows _ _ _ := .reject fault line

theorem nil : Agrees (pure ()) fun _ => pure [] where
  follows given _ mirrors := .done rfl ⟨mirrors, .refl given _⟩

theorem logic (leave : Opcode) (early full : Value) (left : Agrees write lay)
    (right : Agrees next following) :
    Agrees (do
      let short ← newLabel
      let stop ← newLabel
      write
      Compiler.emit (jumpToward leave short)
      next
      Compiler.emitAll [jumpToward leave short, pushValue full, jumpToward .jump stop]
      bindLabel short
      Compiler.emit (pushValue early)
      bindLabel stop) fun position => do
        let first ← lay position
        let second ← following (position + first.length + 1)
        let shortAt := position + first.length + second.length + 4
        return first ++ [jumpTo leave shortAt] ++ second ++ [jumpTo leave shortAt] ++
          [pushValue full, jumpTo .jump (shortAt + 1), pushValue early] where
  follows {before laid position} given here mirrors := by
    refine .first (newLabel_run _) (.first (newLabel_run _) ?_)
    refine .bind (left.follows given here mirrors) fun _ middle first between _ ⟨mirrors, one⟩ => ?_
    refine .first (emit_run _ _) (.bind (right.follows given ?_ mirrors)
      fun _ after second final _ ⟨mirrors, two⟩ => ?_)
    · rw [← one.place here]
      exact Builder.position_emit _ _
    let shortAt := position + first.length + second.length + 4
    have opened := Advances.newLabels given before shortAt (shortAt + 1)
    have tested := (opened.append one).emitAhead leave List.mem_cons_self
    have again := (tested.append two).emitAhead leave List.mem_cons_self
    have passed := (again.emit (pushValue full) ⟨rfl, rfl⟩).emitAhead .jump
      (List.mem_cons_of_mem _ List.mem_cons_self)
    have bound := passed.bind (passed.reaches here (by
      simp only [List.nil_append, instrsOf_append, instrsOf_emitSteps, List.length_append,
        List.length_singleton]
      omega))
    have answered := bound.emit (pushValue early) ⟨rfl, rfl⟩
    refine .first (emitAll_run _ _) (.first passed.bind_run (.first (emit_run _ _) ?_))
    refine .done answered.bind_run ⟨mirrors, (answered.bind (answered.reaches here ?_)).code ?_⟩
    · simp only [List.nil_append, instrsOf_append, instrsOf_emitSteps, List.length_append,
        List.length_singleton]
      omega
    · simp only [emitSteps_append, List.nil_append, List.append_assoc]
      rfl

theorem chain {links : Label → Compile Unit} {layLinks : Nat → Nat → Lay (List Instr)} {size : Nat}
    (head : Agrees write lay) (rest : AgreesLinks links layLinks)
    (measured : ∀ failAt position before code after,
      Yields (layLinks failAt position) before code after → code.length = size) :
    Agrees (do
      let failure ← newLabel
      let stop ← newLabel
      write
      links failure
      Compiler.emit (jumpToward .jump stop)
      bindLabel failure
      Compiler.emitAll [{ op := .pop }, pushValue (.truth false)]
      bindLabel stop) fun position => do
        let head ← lay position
        let failAt := position + head.length + size + 1
        let more ← layLinks failAt (position + head.length)
        return head ++ more ++
          [jumpTo .jump (failAt + 2), { op := .pop }, pushValue (.truth false)] where
  follows {before laid position} given here mirrors := by
    refine .first (newLabel_run _) (.first (newLabel_run _) ?_)
    refine .bind (head.follows given here mirrors)
      fun _ middle head between _ ⟨mirrors, front⟩ => ?_
    let failAt := position + head.length + size + 1
    have fronted := (Advances.newLabels given before failAt (failAt + 2)).append front
    let inside (places : Label → Nat) : Prop :=
      given places ∧ places before.builder.labels.size = failAt
    refine .bind (rest.follows inside (fronted.table.lt_of_mem List.mem_cons_self)
      (fun _ known => known.2) (front.place here) mirrors)
      fun _ after more final ran ⟨mirrors, back⟩ => ?_
    have length := measured _ _ _ _ _ ran
    have linked := fronted.splice back rfl rfl (back.loops.trans fronted.loops) back.sound
      fun places fits known => ⟨known, fits.ahead _ List.mem_cons_self⟩
    have passed := linked.emitAhead .jump (List.mem_cons_of_mem _ List.mem_cons_self)
    have bound := passed.bind (passed.reaches here (by
      simp only [List.nil_append, instrsOf_append, instrsOf_emitSteps, List.length_append,
        List.length_singleton, length]
      omega))
    have failed := (bound.emit { op := .pop } ⟨rfl, rfl⟩).emit (pushValue (.truth false)) ⟨rfl, rfl⟩
    refine .first (emit_run _ _) (.first passed.bind_run (.first (emitAll_run _ _) ?_))
    refine .done failed.bind_run ⟨mirrors, (failed.bind (failed.reaches here ?_)).code ?_⟩
    · simp only [List.nil_append, instrsOf_append, instrsOf_emitSteps, List.length_append,
        List.length_singleton, length]
      omega
    · simp only [emitSteps_append, List.nil_append, List.append_assoc]
      rfl

end Agrees

namespace AgreesLinks

theorem nil : AgreesLinks (fun _ => pure ()) fun _ _ => pure [] where
  follows given _ _ _ mirrors := .done rfl ⟨mirrors, .refl given _⟩

theorem cons {write : Compile Unit} {lay : Nat → Lay (List Instr)} {links : Label → Compile Unit}
    {layLinks : Nat → Nat → Lay (List Instr)} (op : BinaryOp) (isLast : Bool)
    (item : Agrees write lay) (rest : AgreesLinks links layLinks) :
    AgreesLinks (fun failure => do
      write
      if isLast then emit { op := .binary, first := .op op }
      else emitAll [{ op := .compareKeep, first := .op op }, jumpToward .jumpIfFalse failure]
      links failure) fun failAt position => do
        let code ← lay position
        let link := code ++ linkInstrs op isLast failAt
        let more ← layLinks failAt (position + link.length)
        return link ++ more where
  follows {before laid failure failAt position} given made place here mirrors := by
    refine .bind (item.follows given here mirrors)
      fun _ middle code between _ ⟨mirrors, wrote⟩ => ?_
    -- Whichever comparison it is, what remains begins behind it.
    have others {compared : State} (mirrors : Mirrors compared between)
        (linked : Advances given [] before compared
          (emitSteps code ++ emitSteps (linkInstrs op isLast failAt))) :
        Follows (links failure) (do
          let more ← layLinks failAt (position + (code ++ linkInstrs op isLast failAt).length)
          return code ++ linkInstrs op isLast failAt ++ more) compared between
            fun _ after code final =>
              Mirrors after final ∧ Advances given [] before after (emitSteps code) := by
      have whole := linked.code (emitSteps_append _ _).symm
      refine (rest.follows given (Nat.lt_of_lt_of_le made linked.table.grown) place
        (whole.place here) mirrors).map fun _ after more final ⟨mirrors, late⟩ => ⟨mirrors, ?_⟩
      exact (whole.append late).code (emitSteps_append _ _).symm
    cases isLast with
    | true => exact .first (emit_run _ _) (others mirrors (wrote.emit _ ⟨rfl, rfl⟩))
    | false =>
        refine .first (emitAll_run _ _) (others mirrors ?_)
        have compared := wrote.emit { op := .compareKeep, first := .op op } ⟨rfl, rfl⟩
        have known := compared.emitToward .jumpIfFalse
          (fun _ => Nat.lt_of_lt_of_le made compared.table.grown) fun places _ => place places
        rw [List.append_assoc] at known
        exact known

end AgreesLinks

namespace AgreesBlock

variable {write next : Compile Unit} {layTest : Nat → Lay (List Instr)} {test : Compile Unit}
variable {lay following : Nat → Option LoopPlace → Lay (List Builder.Step)} {size more : Nat}

theorem nil : AgreesBlock (pure ()) fun _ _ => pure [] where
  follows given _ _ mirrors := .done rfl ⟨mirrors, .refl given _⟩

theorem rejects (fault : CompileFault) (line : Nat) :
    AgreesBlock (reject fault line) fun _ _ => Compiler.reject fault line where
  follows _ _ _ _ := .reject fault line

theorem ofCode (code : Agrees test layTest) :
    AgreesBlock test fun position _ => return emitSteps (← layTest position) where
  follows given _ here mirrors := (code.follows given here mirrors).map
    fun _ _ _ _ known => known

/-- A statement whose code ends with one instruction. -/
theorem ofEmit {instr : Instr} (code : Agrees test layTest) (plain : instr.IsPlain) :
    AgreesBlock (do
      test
      emit instr) fun position _ => do
        let code ← layTest position
        return emitSteps (code ++ [instr]) := by
  have whole := ofCode (code.thenEmit plain)
  simp only [bind_assoc, pure_bind] at whole
  exact whole

/-- A compound assignment to a variable. -/
theorem compound {name op store : Instr} (value : Agrees test layTest) (named : name.IsPlain)
    (combines : op.IsPlain) (stores : store.IsPlain) :
    AgreesBlock (do
      emit name
      test
      emitAll [op, store]) fun position _ => do
        let code ← layTest (position + 1)
        return emitSteps ([name] ++ code ++ [op, store]) := by
  have whole := ofCode (value.within named
    (List.forall_mem_cons.mpr ⟨combines, List.forall_mem_singleton.mpr stores⟩))
  simp only [bind_assoc, pure_bind] at whole
  exact whole

/-- A statement in its bracket, and those after it. -/
theorem cons (line : Nat) (first : AgreesBlock write lay) (rest : AgreesBlock next following)
    (measured : Measures size lay) :
    AgreesBlock (do
      openSource line
      write
      closeSource
      next) fun position loop => do
        let steps ← lay position loop
        let others ← following (position + size) loop
        return [.openSource line] ++ steps ++ [.closeSource] ++ others where
  follows {before laid position loop} given around here mirrors := by
    have opened := (Advances.refl given before).openSource line
    refine .first (openSource_run _ _) (.bind (first.follows given around (opened.reaches here rfl)
      mirrors) fun _ middle steps between ran ⟨mirrors, inner⟩ => ?_)
    have length := measured _ _ _ _ _ ran
    have closed := (opened.append inner).closeSource
    have kept : before.loops = middle.loops := inner.loops.symm
    refine .first (closeSource_run _) ((rest.follows given (kept ▸ around) (closed.reaches here ?_)
      mirrors).map fun _ after others final ⟨mirrors, late⟩ => ⟨mirrors, closed.append late⟩)
    rw [instrsOf_append, instrsOf_append, List.length_append, List.length_append, length]
    exact congrArg (position + ·) (Nat.zero_add size)

theorem ifThen (condition : Agrees test layTest) (branch : AgreesBlock write lay)
    (measured : Measures size lay) :
    AgreesBlock (do
      let stop ← newLabel
      test
      emit (jumpToward .jumpIfFalse stop)
      write
      bindLabel stop) fun position loop => do
        let test ← layTest position
        let thenAt := position + test.length + 1
        let branch ← lay thenAt loop
        return emitSteps (test ++ [jumpTo .jumpIfFalse (thenAt + size)]) ++ branch where
  follows {before laid position loop} given around here mirrors := by
    refine .first (newLabel_run _) (.bind (condition.follows given here mirrors)
      fun _ middle test between _ ⟨mirrors, tested⟩ => ?_)
    have opened := (Advances.refl given before).newLabel (position + test.length + 1 + size)
    have jumped := (opened.append tested).emitAhead .jumpIfFalse List.mem_cons_self
    have kept : before.loops = middle.loops := tested.loops.symm
    refine .first (emit_run _ _) (.bind (branch.follows given (kept ▸ around)
      (jumped.reaches here ?_) mirrors) fun _ after branch final ran ⟨mirrors, inner⟩ => ?_)
    · simp only [List.nil_append, instrsOf_append, instrsOf_emitSteps, List.length_append,
        List.length_singleton, Nat.add_assoc]
    have length := measured _ _ _ _ _ ran
    have taken := jumped.append inner
    have bound := taken.bind (taken.reaches here (by
      simp only [List.nil_append, instrsOf_append, instrsOf_emitSteps, List.length_append,
        List.length_singleton, length, Nat.add_assoc]))
    rw [List.nil_append, ← emitSteps_append] at bound
    exact .done taken.bind_run ⟨mirrors, bound⟩

theorem ifElse (condition : Agrees test layTest) (branch : AgreesBlock write lay)
    (alternative : AgreesBlock next following) (measured : Measures size lay)
    (others : Measures more following) :
    AgreesBlock (do
      let other ← newLabel
      test
      emit (jumpToward .jumpIfFalse other)
      write
      let stop ← newLabel
      emitUnmapped (jumpToward .jump stop)
      bindLabel other
      next
      bindLabel stop) fun position loop => do
        let test ← layTest position
        let thenAt := position + test.length + 1
        let elseAt := thenAt + size + 1
        let branch ← lay thenAt loop
        let other ← following elseAt loop
        return emitSteps (test ++ [jumpTo .jumpIfFalse elseAt]) ++ branch ++
          [.emitUnmapped (jumpTo .jump (elseAt + more))] ++ other where
  follows {before laid position loop} given around here mirrors := by
    refine .first (newLabel_run _) (.bind (condition.follows given here mirrors)
      fun _ middle test between _ ⟨mirrors, tested⟩ => ?_)
    let elseAt := position + test.length + 1 + size + 1
    have opened := (Advances.refl given before).newLabel elseAt
    have jumped := (opened.append tested).emitAhead .jumpIfFalse List.mem_cons_self
    have kept : before.loops = middle.loops := tested.loops.symm
    refine .first (emit_run _ _) (.bind (branch.follows given (kept ▸ around)
      (jumped.reaches here ?_) mirrors) fun _ later branch next ran ⟨mirrors, inner⟩ => ?_)
    · simp only [List.nil_append, instrsOf_append, instrsOf_emitSteps, List.length_append,
        List.length_singleton, Nat.add_assoc]
    have length := measured _ _ _ _ _ ran
    have skipped := ((jumped.append inner).newLabel (elseAt + more)).emitUnmappedAhead .jump
      (List.mem_cons_of_mem _ List.mem_cons_self)
    have reached : _ = elseAt := skipped.reaches here (by
      simp only [List.nil_append, instrsOf_append, instrsOf_emitSteps, instrsOf_emitUnmapped,
        List.length_append, List.length_singleton, length]
      omega)
    have bound := skipped.bind reached
    have still : before.loops = later.loops := kept.trans inner.loops.symm
    refine .first (newLabel_run _) (.first (emitUnmapped_run _ _) (.first skipped.bind_run
      (.bind (alternative.follows given (still ▸ around) reached mirrors)
        fun _ after other final ran ⟨mirrors, late⟩ => ?_)))
    have size := others _ _ _ _ _ ran
    have whole := bound.append late
    have ended := whole.bind ((late.reaches reached rfl).trans (congrArg (elseAt + ·) size))
    rw [List.nil_append, ← emitSteps_append] at ended
    exact .done whole.bind_run ⟨mirrors, ended⟩

/-- The statements of a loop, the jump back behind them and the place behind that. -/
theorem loop {given : (Label → Nat) → Prop} {before head : State} {laid : LayState}
    {steps : List Builder.Step} {back stop : Label} {target : LoopTarget} {place : LoopPlace}
    {backAt bodyAt stopAt : Nat} (body : AgreesBlock write lay) (measured : Measures size lay)
    (chain : Advances given [(stop, stopAt)] before head steps)
    (begun : head.builder.labels[back]? = some (some backAt))
    (known : target.Known head.builder.labels.size)
    (around : Around (fun places => given places ∧ places back = backAt ∧ places stop = stopAt)
      (some target) (some place))
    (here : head.builder.position = bodyAt) (ends : bodyAt + size + 1 = stopAt)
    (mirrors : Mirrors head laid) :
    Follows (do
      enterLoop target
      write
      leaveLoop
      emit (jumpToward .jump back)
      bindLabel stop) (do
        let inner ← lay bodyAt (some place)
        return steps ++ inner ++ emitSteps [jumpTo .jump backAt]) head laid
      fun _ after code final =>
        Mirrors after final ∧ Advances given [] before after code := by
  refine .first (enterLoop_run _ _) (.bind (body.follows _ around here mirrors)
    fun _ after inner final ran ⟨mirrors, wrote⟩ => ?_)
  have looped := chain.loopBody wrote known fun places fits given =>
    ⟨given, fits.bound back backAt begun, fits.ahead _ List.mem_cons_self⟩
  have still := wrote.table.found begun
  have jumped := looped.emitToward .jump (fun _ => (Array.getElem?_eq_some_iff.mp still).1)
    fun places fits _ => fits.bound back backAt still
  have behind : after.builder.position = bodyAt + size := by
    rw [wrote.position, ← measured _ _ _ _ _ ran, ← here]
    rfl
  have reached : (after.builder.emit (jumpToward .jump back)).position = stopAt := by
    rw [← ends, ← behind]
    exact Builder.position_emit _ _
  exact .first (leaveLoop_run _) (.first (emit_run _ _)
    (.done jumped.bind_run ⟨mirrors, jumped.bind reached⟩))

theorem whileLoop (condition : Agrees test layTest) (body : AgreesBlock write lay)
    (measured : Measures size lay) :
    AgreesBlock (do
      let start ← newLabel
      let stop ← newLabel
      bindLabel start
      test
      emit (jumpToward .jumpIfFalse stop)
      enterLoop (.whileLoop start stop)
      write
      leaveLoop
      emit (jumpToward .jump start)
      bindLabel stop) fun position _ => do
        let test ← layTest position
        let bodyAt := position + test.length + 1
        let stop := bodyAt + size + 1
        let steps ← lay bodyAt (some (.whileLoop position stop))
        return emitSteps (test ++ [jumpTo .jumpIfFalse stop]) ++ steps ++
          emitSteps [jumpTo .jump position] where
  follows {before laid position _} given _ here mirrors := by
    have made := Advances.newLabels given before position
    refine .first (newLabel_run _) (.first (newLabel_run _) (.first (made 0).bind_run
      (.bind (condition.follows given here mirrors)
        fun _ middle test between _ ⟨mirrors, tested⟩ => ?_)))
    let stopAt := position + test.length + 1 + size + 1
    have started := (made stopAt).bind here
    have jumped := (started.append tested).emitAhead .jumpIfFalse List.mem_cons_self
    have begun := tested.table.found ((made stopAt).bound_at here)
    rw [List.nil_append, ← emitSteps_append] at jumped
    refine .first (emit_run _ _) (body.loop measured jumped begun
      ⟨(Array.getElem?_eq_some_iff.mp begun).1, jumped.table.lt_of_mem List.mem_cons_self⟩
      (.whileLoop (fun _ known => known.2.1) fun _ known => known.2.2) ?_ rfl mirrors)
    rw [← tested.place here]
    exact Builder.position_emit _ _

theorem forLoop (name : String) (source : Agrees test layTest) (body : AgreesBlock write lay)
    (measured : Measures size lay) :
    AgreesBlock (do
      let id ← newLoop
      let next ← newLabel
      let stop ← newLabel
      test
      emit { op := .createForLoop, first := .int id.toNat, second := .name name }
      bindLabel next
      emit { op := .iterateForLoop, first := .int id.toNat, second := .label stop }
      enterLoop (.forLoop id)
      write
      leaveLoop
      emit (jumpToward .jump next)
      bindLabel stop) fun position _ => do
        let id ← takeLoop
        let source ← layTest position
        let next := position + source.length + 1
        let stop := next + 1 + size + 1
        let steps ← lay (next + 1) (some (.forLoop id))
        return emitSteps (source ++
          [{ op := .createForLoop, first := .int id, second := .name name },
            { op := .iterateForLoop, first := .int id, second := .addr stop }]) ++ steps ++
          emitSteps [jumpTo .jump next] where
  follows {before laid position _} given _ here mirrors := by
    let numbered : State := { before with nextLoop := before.nextLoop + 1 }
    refine .first (newLoop_run _) (.meanwhile (yields_takeLoop.mpr ⟨rfl, rfl⟩) ?_)
    rw [← mirrors.2]
    refine .first (newLabel_run _) (.first (newLabel_run _)
      (.bind (source.follows given here (newLoop_mirrors mirrors))
        fun _ middle code between _ ⟨mirrors, wrote⟩ => ?_))
    let nextAt := position + code.length + 1
    let stopAt := nextAt + 1 + size + 1
    have unmoved : Advances given [] before numbered [] := .still rfl rfl
    have created := (((unmoved.newLabel nextAt).newLabel stopAt).append wrote).emit
      { op := .createForLoop, first := .int before.nextLoop.toNat, second := .name name } ⟨rfl, rfl⟩
    have reached : _ = nextAt := created.reaches here (by
      simp only [List.nil_append, instrsOf_append, instrsOf_emitSteps, List.length_append,
        List.length_singleton, nextAt, Nat.add_assoc])
    have bound := created.bind reached
    have iterated := bound.iterateAhead before.nextLoop.toNat List.mem_cons_self
    refine .first (emit_run _ _) (.first created.bind_run (.first (emit_run _ _) ?_))
    refine body.loop measured (iterated.code ?_) (created.bound_at reached) trivial
      (.forLoop rfl) ?_ rfl mirrors
    · simp only [emitSteps_append, List.nil_append, List.append_assoc]
      rfl
    · exact (Builder.position_emit _ _).trans (congrArg (· + 1) reached)

/-- A jump to a label that has been made, as it is laid out. -/
theorem jumpTo_follows {given : (Label → Nat) → Prop} {before : State} {laid : LayState}
    {label : Label} {address : Nat} (made : before.Sound → label < before.builder.labels.size)
    (place : ∀ places, given places → places label = address) (mirrors : Mirrors before laid) :
    Follows (emit (jumpToward .jump label)) (pure (emitSteps [jumpTo .jump address])) before laid
      fun _ after steps final => Mirrors after final ∧ Advances given [] before after steps :=
  .done (emit_run _ _) ⟨mirrors, (Advances.refl given before).emitToward .jump made
    fun places _ => place places⟩

theorem breakLoop (line : Nat) :
    AgreesBlock (do
      match ← innermostLoop with
      | some (.whileLoop _ stop) => emit (jumpToward .jump stop)
      | some (.forLoop id) => emit (withCount .breakForLoop id.toNat)
      | none => reject .breakOutsideLoop line) fun _ loop =>
        match loop with
        | some (.whileLoop _ stop) => return emitSteps [jumpTo .jump stop]
        | some (.forLoop id) => return emitSteps [withCount .breakForLoop id]
        | none => reject .breakOutsideLoop line where
  follows {before laid _ _} given around _ mirrors := by
    refine .first (innermostLoop_run before) ?_
    generalize inner : before.loops.head? = target at around
    cases around with
    | outside => exact .reject _ _
    | whileLoop begins ends =>
        exact jumpTo_follows (fun sound => (sound.targets _ (List.mem_of_mem_head? inner)).2) ends
          mirrors
    | forLoop same =>
        rw [← same]
        exact .done (emit_run _ _) ⟨mirrors, (Advances.refl given before).emit _ ⟨rfl, rfl⟩⟩

theorem continueLoop (line : Nat) :
    AgreesBlock (do
      match ← innermostLoop with
      | some (.whileLoop start _) => emit (jumpToward .jump start)
      | some (.forLoop id) => emit (withCount .continueForLoop id.toNat)
      | none => reject .continueOutsideLoop line) fun _ loop =>
        match loop with
        | some (.whileLoop start _) => return emitSteps [jumpTo .jump start]
        | some (.forLoop id) => return emitSteps [withCount .continueForLoop id]
        | none => reject .continueOutsideLoop line where
  follows {before laid _ _} given around _ mirrors := by
    refine .first (innermostLoop_run before) ?_
    generalize inner : before.loops.head? = target at around
    cases around with
    | outside => exact .reject _ _
    | whileLoop begins ends =>
        exact jumpTo_follows (fun sound => (sound.targets _ (List.mem_of_mem_head? inner)).1) begins
          mirrors
    | forLoop same =>
        rw [← same]
        exact .done (emit_run _ _) ⟨mirrors, (Advances.refl given before).emit _ ⟨rfl, rfl⟩⟩

end AgreesBlock

/-- A function literal, whose body stands by itself. -/
theorem Agrees.function {write : Compile Unit}
    {lay : Nat → Option LoopPlace → Lay (List Builder.Step)}
    (params : List Param) (stmts : List Stmt) (body : AgreesBlock write lay) :
    Agrees (do
      let params ← compileParams params
      let outer ← beginBody sourceName
      write
      let code ← finishBody .function stmts
      resumeBody outer
      let ref ← addFunction { name := none, params, body := .script code }
      Compiler.emit { op := .pushFunction, first := .func ref }) fun _ => do
        let params ← compileParams params
        let outer ← get
        set { outer with nextLoop := 0 }
        let steps ← lay 0 none
        let code ← assemble sourceName .function stmts steps
        let inner ← get
        set { inner with nextLoop := outer.nextLoop }
        let ref ← takeFunction { name := none, params, body := .script code }
        return [{ op := .pushFunction, first := .func ref }] where
  follows {before laid _} given _ mirrors := by
    refine .lift fun parameters => .first (beginBody_run before sourceName) (.look (.reset ?_))
    refine .bind (body.follows (fun _ => True) .outside rfl
      (mirrors.1 ▸ start_mirrors sourceName before.functions))
        fun _ middle steps between _ ⟨inner, wrote⟩ => ?_
    refine .bind (finishBody_agrees .function stmts wrote) fun code after result final _ known => ?_
    obtain ⟨rfl, kept, rfl⟩ := known
    refine .first (resumeBody_run after before) (.look (.reset ?_))
    refine .first (addFunction_run _ _) (.meanwhile (yields_takeFunction.mpr ⟨rfl, rfl⟩) ?_)
    have same : after.functions = final.functions := kept.trans inner.1
    dsimp only
    rw [← same]
    let definition : Definition := { name := none, params := parameters, body := .script code }
    have added : Advances given [] before
        { before with functions := after.functions.push definition } [] := .still rfl rfl
    exact .done rfl ⟨⟨rfl, mirrors.2⟩, added.emit _ ⟨rfl, rfl⟩⟩

theorem layStmts_measures (stmts : List Stmt) :
    Measures (stmtsSize stmts) fun position loop => layStmts sourceName position loop stmts :=
  fun _ _ _ _ _ ran => (layStmts_written stmts ran).length

theorem layStmt_measures (stmt : Stmt) :
    Measures (stmtSize stmt) fun position loop => layStmt sourceName position loop stmt :=
  fun _ _ _ _ _ ran => (layStmt_written stmt ran).length

mutual

theorem compileExpr_agrees (mode : Mode) (expr : Expr) :
    Agrees (compileExpr sourceName mode expr) fun position =>
      layExpr sourceName mode position expr := by
  cases expr with
  | number | text | bool | null => exact .emit ⟨rfl, rfl⟩
  | name ident => exact .emit (nameInstr_straight mode ident.name).isPlain
  | self | super => exact .emit ⟨rfl, rfl⟩
  | unary op span id operand => exact (compileExpr_agrees .invoke operand).thenEmit ⟨rfl, rfl⟩
  | binary left op span id right =>
      exact .two (compileExpr_agrees .invoke left) (compileExpr_agrees .invoke right) ⟨rfl, rfl⟩
  | logic left op span id right =>
      exact .logic _ _ _ (compileExpr_agrees .invoke left) (compileExpr_agrees .invoke right)
  | chain span id items ops =>
      cases items with
      | nil => exact .emit ⟨rfl, rfl⟩
      | cons first rest =>
          refine .ite (fun same => ?_) fun _ => .rejects _ _
          have same : (ops.map (·.1)).length = rest.length := by rw [List.length_map, same]
          exact .chain (compileExpr_agrees .invoke first) (compileLinks_agrees rest same)
            fun _ _ _ _ _ ran => (layLinks_written rest same ran).length
  | group span id inner => exact compileExpr_agrees _ inner
  | list span id items => exact (compileExprs_agrees items).thenEmit ⟨rfl, rfl⟩
  | map span id entries => exact (compileEntries_agrees entries).thenEmit ⟨rfl, rfl⟩
  | index span id base index =>
      exact .two (compileExpr_agrees .invoke base) (compileExpr_agrees .invoke index)
        (indexInstr_straight mode).isPlain
  | member base field id =>
      refine .ite (fun _ => .emitAll ?_) fun _ => (compileExpr_agrees .invoke base).thenEmitAll ?_
      · exact List.forall_mem_cons.mpr
          ⟨⟨rfl, rfl⟩, List.forall_mem_singleton.mpr (superInstr_straight mode).isPlain⟩
      · exact List.forall_mem_cons.mpr
          ⟨⟨rfl, rfl⟩, List.forall_mem_singleton.mpr (indexInstr_straight mode).isPlain⟩
  | slice span id base first last =>
      exact .three (compileExpr_agrees .invoke base) (compileBound_agrees first)
        (compileBound_agrees last)
        ⟨rfl, rfl⟩
  | call span id callee args =>
      have arguments := compileExprs_agrees args
      have whole := compileExpr_agrees .invoke callee
      cases callee with
      | name ident =>
          refine .ite (fun _ => .rejects _ _) fun _ => .ite (fun _ => ?_) fun _ => ?_
          · exact arguments.within (nameInstr_straight .invoke ident.name).isPlain
              (List.forall_mem_singleton.mpr ⟨rfl, rfl⟩)
          · exact arguments.thenEmit ⟨rfl, rfl⟩
      | member base field id =>
          refine .ite (fun _ => .rejects _ _) fun _ => .ite (fun _ => ?_) fun _ => ?_
          · exact arguments.within ⟨rfl, rfl⟩ (List.forall_mem_singleton.mpr ⟨rfl, rfl⟩)
          · exact .method (compileExpr_agrees .invoke base) arguments ⟨rfl, rfl⟩ ⟨rfl, rfl⟩
      | index span id base index =>
          refine .ite (fun _ => .rejects _ _) fun _ => ?_
          exact .three (compileExpr_agrees .invoke base) (compileExpr_agrees .invoke index)
            arguments ⟨rfl, rfl⟩
      | _ =>
          refine .ite (fun _ => .rejects _ _) fun _ => ?_
          exact .two whole arguments ⟨rfl, rfl⟩
  | reference span id inner => exact compileExpr_agrees _ inner
  | function span id params body => exact .function params body (compileStmts_agrees body)

theorem compileLinks_agrees (items : List Expr) {ops : List BinaryOp}
    (same : ops.length = items.length) :
    AgreesLinks (fun failure => compileLinks sourceName failure ops items)
      fun failAt position => layLinks sourceName failAt position ops items := by
  cases items with
  | nil =>
      cases ops with
      | nil => exact .nil
      | cons => cases same
  | cons item rest =>
      cases ops with
      | nil => cases same
      | cons op ops =>
          exact .cons op rest.isEmpty (compileExpr_agrees .invoke item)
            (compileLinks_agrees rest (Nat.succ.inj same))

theorem compileExprs_agrees (items : List Expr) :
    Agrees (compileExprs sourceName items) fun position => layExprs sourceName position items := by
  cases items with
  | nil => exact .nil
  | cons item rest => exact (compileExpr_agrees .invoke item).append (compileExprs_agrees rest)

theorem compileEntries_agrees (entries : List (Expr × Expr)) :
    Agrees (compileEntries sourceName entries) fun position =>
      layEntries sourceName position entries := by
  cases entries with
  | nil => exact .nil
  | cons entry rest =>
      exact .also (compileExpr_agrees .invoke entry.1) (compileExpr_agrees .invoke entry.2)
        (compileEntries_agrees rest)

theorem compileBound_agrees (bound : Option Expr) :
    Agrees (compileBound sourceName bound) fun position => layBound sourceName position bound := by
  cases bound with
  | none => exact .emit ⟨rfl, rfl⟩
  | some bound => exact compileExpr_agrees .invoke bound

theorem compileStmt_agrees (stmt : Stmt) :
    AgreesBlock (compileStmt sourceName stmt) fun position loop =>
      layStmt sourceName position loop stmt := by
  cases stmt with
  | expr id value => exact .ofEmit (compileExpr_agrees .invoke value) ⟨rfl, rfl⟩
  | assign id target op value =>
      cases target with
      | name ident =>
          cases op with
          | none => exact .ofEmit (compileExpr_agrees .invoke value) ⟨rfl, rfl⟩
          | some op =>
              exact .compound (compileExpr_agrees .invoke value)
                (nameInstr_straight .invoke ident.name).isPlain
                ⟨rfl, rfl⟩ ⟨rfl, rfl⟩
      | member base field id =>
          have key := (compileExpr_agrees .invoke base).thenEmit (pushText_plain field.name)
          simpa only [compileStmt, layStmt, bind_assoc, pure_bind] using
            AgreesBlock.ofCode (key.store op (compileExpr_agrees .invoke value))
      | index span id base index =>
          have key : Agrees _ _ :=
            (compileExpr_agrees .invoke base).append (compileExpr_agrees .invoke index)
          simpa only [compileStmt, layStmt, bind_assoc, pure_bind] using
            AgreesBlock.ofCode (key.store op (compileExpr_agrees .invoke value))
      | _ => exact .rejects _ _
  | ifElse id span condition thenBranch elseBranch =>
      cases elseBranch with
      | none =>
          exact .ifThen (compileExpr_agrees .invoke condition) (compileStmts_agrees thenBranch)
            (layStmts_measures thenBranch)
      | some elseBranch =>
          exact .ifElse (compileExpr_agrees .invoke condition) (compileStmts_agrees thenBranch)
            (compileStmts_agrees elseBranch) (layStmts_measures thenBranch)
            (layStmts_measures elseBranch)
  | whileLoop id span condition body =>
      exact .whileLoop (compileExpr_agrees .invoke condition) (compileStmts_agrees body)
        (layStmts_measures body)
  | forLoop id span var iter body =>
      exact .forLoop var.name (compileExpr_agrees .invoke iter) (compileStmts_agrees body)
        (layStmts_measures body)
  | breakLoop id span => exact .breakLoop span.line
  | continueLoop id span => exact .continueLoop span.line
  | returnValue id span value => exact .ofEmit (compileBound_agrees value) ⟨rfl, rfl⟩

theorem compileStmts_agrees (stmts : List Stmt) :
    AgreesBlock (compileStmts sourceName stmts) fun position loop =>
      layStmts sourceName position loop stmts := by
  cases stmts with
  | nil => exact .nil
  | cons stmt rest =>
      exact .cons stmt.line (compileStmt_agrees stmt) (compileStmts_agrees rest)
        (layStmt_measures stmt)

end

/-- The compiler writes the code of a body that is laid out, or fails as the layout does. -/
theorem compileBody_eq_layBody (sourceName : Option String) (kind : BodyKind) (stmts : List Stmt)
    (functions : Array Definition) :
    compileBody sourceName kind stmts functions = layBody sourceName kind stmts functions := by
  have follows : Follows (do
      compileStmts sourceName stmts
      finishBody kind stmts) (do
        let steps ← layStmts sourceName 0 none stmts
        assemble sourceName kind stmts steps) (.start sourceName functions) ⟨functions, 0⟩
          fun code after result final => code = result ∧ after.functions = final.functions := by
    refine .bind ((compileStmts_agrees stmts).follows (fun _ => True) .outside rfl
      (start_mirrors sourceName functions)) fun _ after steps final _ ⟨mirrors, wrote⟩ => ?_
    refine (finishBody_agrees kind stmts wrote).imp fun code last result between known => ?_
    obtain ⟨rfl, kept, rfl⟩ := known
    exact ⟨rfl, kept.trans mirrors.1⟩
  unfold Follows at follows
  unfold compileBody layBody
  dsimp only
  split at follows
  · rename_i error laidOut
    rw [follows, laidOut]
    rfl
  · rename_i result final laidOut
    obtain ⟨code, after, wrote, rfl, same⟩ := follows
    rw [wrote, laidOut]
    exact congrArg (fun functions => Except.ok (code, functions)) same

end Compiler

end MiniScript
