import MiniScript.Proofs.Compiler.Yields

/-!
# Source maps are exact

Whatever a builder is asked, in whatever order, the source map of the code that it
finishes says of every instruction from which source bracket it came. The entries
are in order, hold at least one instruction each and do not overlap, so that halving
the map finds the one entry that holds an instruction. While the builder is at work
the entries account for all instructions before the running segment of the innermost
bracket, and every instruction of that segment belongs to that bracket.
-/

namespace MiniScript

namespace Code

variable {entries : Array SourceEntry} {position : Nat}

/-- One entry ends before the next one starts. -/
def InOrder (entries : Array SourceEntry) : Prop :=
  entries.toList.Pairwise fun first second => first.stop ≤ second.start

/-- Every entry holds an instruction. -/
def NoneEmpty (entries : Array SourceEntry) : Prop :=
  ∀ entry ∈ entries, entry.start < entry.stop

/-- Where the entry of an index stops. -/
def stopAt (entries : Array SourceEntry) (index : Nat) : Nat :=
  (entries[index]?.getD default).stop

theorem stopAt_of_getElem? {index : Nat} {entry : SourceEntry}
    (found : entries[index]? = some entry) : stopAt entries index = entry.stop := by
  rw [stopAt, found, Option.getD_some]

/-- Later entries start no earlier than earlier ones stop. -/
theorem InOrder.stop_le_start (inOrder : InOrder entries) {index later : Nat}
    {first second : SourceEntry} (found : entries[index]? = some first)
    (other : entries[later]? = some second) (before : index < later) :
    first.stop ≤ second.start := by
  obtain ⟨inside, rfl⟩ := Array.getElem?_eq_some_iff.mp found
  obtain ⟨bounded, rfl⟩ := Array.getElem?_eq_some_iff.mp other
  have pairwise := List.pairwise_iff_getElem.mp inOrder index later
  exact pairwise (by simpa using inside) (by simpa using bounded) before

theorem stopAt_mono (inOrder : InOrder entries) (noneEmpty : NoneEmpty entries) {index later : Nat}
    (before : index ≤ later) (bounded : later < entries.size) :
    stopAt entries index ≤ stopAt entries later := by
  rcases Nat.eq_or_lt_of_le before with rfl | before
  · exact Nat.le_refl _
  · have inside := Nat.lt_trans before bounded
    have first := Array.getElem?_eq_getElem inside
    have second := Array.getElem?_eq_getElem bounded
    have apart := inOrder.stop_le_start first second before
    have filled := noneEmpty _ (Array.mem_of_getElem? second)
    rw [stopAt_of_getElem? first, stopAt_of_getElem? second]
    exact Nat.le_trans apart (Nat.le_of_lt filled)

/-- Halving leaves all entries that stop by `position` below the result, and no others. -/
theorem searchEntries_divides (position : Nat) (inOrder : InOrder entries)
    (noneEmpty : NoneEmpty entries) {low high : Nat} (sound : low ≤ high)
    (bounded : high ≤ entries.size) :
    let found := searchEntries entries position low high
    low ≤ found ∧ found ≤ high ∧
      (∀ index, low ≤ index → index < found → stopAt entries index ≤ position) ∧
      ∀ index, found ≤ index → index < high → position < stopAt entries index := by
  induction low, high using searchEntries.induct entries position with
  | case1 low high inside middle stops ih =>
      have below : middle < high := by omega
      obtain ⟨above, atMost, before, after⟩ := ih (by omega) bounded
      have goesUp : searchEntries entries position low high =
          searchEntries entries position (middle + 1) high := by
        rw [searchEntries, if_pos inside, if_pos stops]
      rw [goesUp]
      refine ⟨by omega, atMost, fun index start stop => ?_, after⟩
      by_cases later : middle + 1 ≤ index
      · exact before index later stop
      · have early : index ≤ middle := by omega
        exact Nat.le_trans (stopAt_mono inOrder noneEmpty early (by omega)) stops
  | case2 low high inside middle goesOn ih =>
      have below : middle < high := by omega
      obtain ⟨above, atMost, before, after⟩ := ih (by omega) (by omega)
      have goesDown : searchEntries entries position low high =
          searchEntries entries position low middle := by
        rw [searchEntries, if_pos inside, if_neg goesOn]
      rw [goesDown]
      refine ⟨above, by omega, before, fun index start stop => ?_⟩
      by_cases early : index < middle
      · exact after index start early
      · have late : middle ≤ index := by omega
        exact Nat.lt_of_lt_of_le (Nat.lt_of_not_le goesOn)
          (stopAt_mono inOrder noneEmpty late (by omega))
  | case3 low high outside =>
      rw [searchEntries, if_neg outside]
      exact ⟨Nat.le_refl _, sound, fun index start stop => by omega,
        fun index start stop => by omega⟩

theorem contains_iff {entry : SourceEntry} :
    entry.contains position = true ↔ entry.start ≤ position ∧ position < entry.stop := by
  simp only [SourceEntry.contains, Bool.and_eq_true, decide_eq_true_eq]

/-- The search finds an entry exactly if it holds the instruction. -/
theorem entryAt?_eq_some_iff {code : Code} (inOrder : InOrder code.entries)
    (noneEmpty : NoneEmpty code.entries) {entry : SourceEntry} :
    code.entryAt? position = some entry ↔
      entry ∈ code.entries ∧ entry.contains position = true := by
  obtain ⟨-, -, before, after⟩ := searchEntries_divides position inOrder noneEmpty
    (Nat.zero_le code.entries.size) (Nat.le_refl _)
  unfold entryAt?
  generalize searchEntries code.entries position 0 code.entries.size = found at before after
  rw [Option.filter_eq_some_iff]
  constructor
  · rintro ⟨here, holds⟩
    exact ⟨Array.mem_of_getElem? here, holds⟩
  · rintro ⟨member, holds⟩
    refine ⟨?_, holds⟩
    obtain ⟨start, stop⟩ := contains_iff.mp holds
    obtain ⟨index, inside, here⟩ := Array.getElem_of_mem member
    have stored : code.entries[index]? = some entry := by
      rw [Array.getElem?_eq_getElem inside, here]
    have stops := stopAt_of_getElem? stored
    -- The entries before the one that is found stop too early, and those behind it start too late.
    rcases Nat.lt_trichotomy index found with early | rfl | late
    · have done := before index (Nat.zero_le _) early
      omega
    · exact stored
    · have known := Array.getElem?_eq_getElem (Nat.lt_trans late inside)
      have goesOn := after found (Nat.le_refl _) (Nat.lt_trans late inside)
      have apart := inOrder.stop_le_start known stored late
      rw [stopAt_of_getElem? known] at goesOn
      omega

end Code

namespace Builder

/-- What can be asked of a builder. -/
inductive Command where
  | step (step : Step)
  | newLabel
  | bind (label : Label)

/-- A `bind` that fails answers with the error alone, and the builder is then the one before it. -/
def obey (builder : Builder) : Command → Builder
  | .step step => builder.apply step
  | .newLabel => builder.newLabel.2
  | .bind label =>
      match builder.bind label with
      | .ok bound => bound
      | .error _ => builder

def obeyAll (builder : Builder) (commands : List Command) : Builder :=
  commands.foldl obey builder

/-- The steps among the commands. -/
def stepsOf (commands : List Command) : List Step :=
  commands.filterMap fun command =>
    match command with
    | .step step => some step
    | _ => none

/-- A source bracket: how many had been opened before it, and its line. -/
structure Origin where
  number : Nat
  line : Nat
deriving DecidableEq, Repr

/-- How many brackets have been opened, and which of them are open, the innermost first. -/
structure Nesting where
  opened : Nat := 0
  brackets : List Origin := []

/-- For every instruction that the steps add, the bracket that is innermost then; none for an
instruction that is added as one of no line, or outside of every bracket. -/
def origins : Nesting → List Step → List (Option Origin)
  | _, [] => []
  | nesting, .emit _ :: rest => nesting.brackets.head? :: origins nesting rest
  | nesting, .emitUnmapped _ :: rest => none :: origins nesting rest
  | nesting, .openSource line :: rest =>
      origins ⟨nesting.opened + 1, ⟨nesting.opened, line⟩ :: nesting.brackets⟩ rest
  | nesting, .closeSource :: rest => origins ⟨nesting.opened, nesting.brackets.tail⟩ rest

theorem origins_length (nesting : Nesting) (steps : List Step) :
    (origins nesting steps).length = (instrsOf steps).length := by
  induction steps generalizing nesting with
  | nil => rfl
  | cons step rest ih =>
      cases step with
      | emit | emitUnmapped =>
          simp only [origins, instrsOf, Step.instr?, List.filterMap_cons, List.length_cons, ih]
      | openSource | closeSource =>
          simp only [origins, instrsOf, Step.instr?, List.filterMap_cons, ih]

/-- The entries account for all instructions before `limit`: each belongs to one bracket, to which
all its instructions belong. -/
structure Covers (instrs : Array Instr) (origins : List (Option Origin))
    (entries : Array SourceEntry) (limit : Nat) : Prop where
  inOrder : Code.InOrder entries
  noneEmpty : Code.NoneEmpty entries
  bounded : ∀ entry ∈ entries, entry.stop ≤ limit
  owned : ∀ entry ∈ entries, ∃ origin : Origin, entry.line = origin.line ∧
    ∀ position, entry.contains position = true → origins[position]? = some (some origin)
  callSites : ∀ entry ∈ entries, entry.isCallSite = true ↔
    ∃ position instr, entry.contains position = true ∧ instrs[position]? = some instr ∧
      instr.op.isCall = true
  complete : ∀ position origin, position < limit → origins[position]? = some (some origin) →
    ∃ entry ∈ entries, entry.contains position = true

namespace Covers

variable {instrs : Array Instr} {origins : List (Option Origin)} {entries : Array SourceEntry}
variable {limit : Nat}

theorem empty : Covers #[] [] #[] 0 where
  inOrder := List.Pairwise.nil
  noneEmpty entry member := absurd member (Array.not_mem_empty entry)
  bounded entry member := absurd member (Array.not_mem_empty entry)
  owned entry member := absurd member (Array.not_mem_empty entry)
  callSites entry member := absurd member (Array.not_mem_empty entry)
  complete _ _ below := absurd below (Nat.not_lt_zero _)

/-- Another instruction behind the limit. -/
theorem emit (covers : Covers instrs origins entries limit) (known : limit ≤ instrs.size)
    (same : origins.length = instrs.size) (instr : Instr) (origin : Option Origin) :
    Covers (instrs.push instr) (origins ++ [origin]) entries limit := by
  have inside {position : Nat} (below : position < limit) :
      (origins ++ [origin])[position]? = origins[position]? ∧
        (instrs.push instr)[position]? = instrs[position]? := by
    have stored := Nat.lt_of_lt_of_le below known
    exact ⟨List.getElem?_append_left (same ▸ stored),
      (Array.getElem?_push_lt stored).trans (Array.getElem?_eq_getElem stored).symm⟩
  have below {entry : SourceEntry} (member : entry ∈ entries) {position : Nat}
      (holds : entry.contains position = true) : position < limit :=
    Nat.lt_of_lt_of_le (Code.contains_iff.mp holds).2 (covers.bounded entry member)
  refine ⟨covers.inOrder, covers.noneEmpty, covers.bounded, ?_, ?_, ?_⟩
  · intro entry member
    obtain ⟨owner, line, all⟩ := covers.owned entry member
    refine ⟨owner, line, fun position holds => ?_⟩
    rw [(inside (below member holds)).1]
    exact all position holds
  · intro entry member
    rw [covers.callSites entry member]
    constructor
    · rintro ⟨position, found, holds, here, calls⟩
      exact ⟨position, found, holds, (inside (below member holds)).2.trans here, calls⟩
    · rintro ⟨position, found, holds, here, calls⟩
      exact ⟨position, found, holds, (inside (below member holds)).2.symm.trans here, calls⟩
  · intro position owner stops here
    rw [(inside stops).1] at here
    exact covers.complete position owner stops here

/-- Instructions that belong to no bracket need no entry. -/
theorem skip (covers : Covers instrs origins entries limit) {next : Nat} (later : limit ≤ next)
    (free : ∀ position, limit ≤ position → position < next →
      ∀ origin, origins[position]? ≠ some (some origin)) :
    Covers instrs origins entries next := by
  refine ⟨covers.inOrder, covers.noneEmpty, ?_, covers.owned, covers.callSites, ?_⟩
  · intro entry member
    exact Nat.le_trans (covers.bounded entry member) later
  · intro position origin below here
    by_cases early : position < limit
    · exact covers.complete position origin early here
    · exact absurd here (free position (Nat.le_of_not_lt early) below origin)

/-- An entry for the instructions of one bracket from the limit on. -/
theorem push (covers : Covers instrs origins entries limit) {entry : SourceEntry} {origin : Origin}
    (start : entry.start = limit) (filled : limit < entry.stop) (line : entry.line = origin.line)
    (all : ∀ position, limit ≤ position → position < entry.stop →
      origins[position]? = some (some origin))
    (calls : entry.isCallSite = true ↔ ∃ position instr, entry.contains position = true ∧
      instrs[position]? = some instr ∧ instr.op.isCall = true) :
    Covers instrs origins (entries.push entry) entry.stop := by
  refine ⟨?_, ?_, ?_, ?_, ?_, ?_⟩
  · rw [Code.InOrder, Array.toList_push, List.pairwise_append]
    refine ⟨covers.inOrder, List.pairwise_singleton _ _, fun other member last here => ?_⟩
    rw [List.mem_singleton.mp here, start]
    exact covers.bounded other (Array.mem_toList_iff.mp member)
  all_goals
    simp only [Code.NoneEmpty, Array.mem_push, or_imp, forall_and, forall_eq, or_and_right,
      exists_or, exists_eq_left]
  · exact ⟨covers.noneEmpty, start ▸ filled⟩
  · refine ⟨fun other member => ?_, Nat.le_refl _⟩
    exact Nat.le_of_lt (Nat.lt_of_le_of_lt (covers.bounded other member) filled)
  · refine ⟨covers.owned, origin, line, fun position holds => ?_⟩
    obtain ⟨above, below⟩ := Code.contains_iff.mp holds
    exact all position (start ▸ above) below
  · exact ⟨covers.callSites, calls⟩
  · intro position owner below here
    by_cases early : position < limit
    · exact Or.inl (covers.complete position owner early here)
    · refine Or.inr (Code.contains_iff.mpr ⟨?_, below⟩)
      exact start ▸ Nat.le_of_not_lt early

end Covers

/-- Where the running segment of the innermost bracket starts; without a bracket, the end. -/
def segmentStart (builder : Builder) : Nat :=
  match builder.brackets with
  | [] => builder.position
  | bracket :: _ => bracket.segmentStart

/-- The builder has kept account of the instructions, which came from the brackets in `origins`. -/
structure Tracks (builder : Builder) (nesting : Nesting) (origins : List (Option Origin)) :
    Prop where
  size : origins.length = builder.position
  lines : builder.brackets.map (·.line) = nesting.brackets.map (·.line)
  covers : Covers builder.instrs origins builder.entries builder.segmentStart
  started : builder.segmentStart ≤ builder.position
  running : ∀ position, builder.segmentStart ≤ position → position < builder.position →
    origins[position]? = some nesting.brackets.head?

theorem flushInnermost_brackets (builder : Builder) :
    builder.flushInnermost.brackets = builder.brackets := by
  unfold flushInnermost
  split
  · rfl
  · unfold flush
    split <;> rfl

theorem restartInnermost_entries (builder : Builder) :
    builder.restartInnermost.entries = builder.entries := by
  unfold restartInnermost
  split <;> rfl

theorem restartInnermost_lines (builder : Builder) :
    builder.restartInnermost.brackets.map (·.line) = builder.brackets.map (·.line) := by
  unfold restartInnermost
  split
  · rfl
  · rename_i brackets
    rw [brackets]
    rfl

theorem restartInnermost_brackets_length (builder : Builder) :
    builder.restartInnermost.brackets.length = builder.brackets.length := by
  have lines := congrArg List.length (restartInnermost_lines builder)
  rwa [List.length_map, List.length_map] at lines

theorem restartInnermost_segmentStart (builder : Builder) :
    builder.restartInnermost.segmentStart = builder.restartInnermost.position := by
  cases brackets : builder.brackets with
  | nil => simp only [restartInnermost, segmentStart, brackets]
  | cons bracket rest => simp only [restartInnermost, segmentStart, brackets, position]

theorem callsFrom_iff (builder : Builder) (start : Nat) :
    builder.callsFrom start = true ↔ ∃ position instr, start ≤ position ∧
      position < builder.position ∧ builder.instrs[position]? = some instr ∧
        instr.op.isCall = true := by
  rw [callsFrom, Array.any_eq_true]
  constructor
  · rintro ⟨index, inside, calls⟩
    rw [Array.getElem_extract] at calls
    rw [Array.size_extract, position, Nat.min_self] at inside
    refine ⟨start + index, _, Nat.le_add_right _ _, ?_, Array.getElem?_eq_getElem ?_, calls⟩
    all_goals
      rw [Nat.lt_sub_iff_add_lt'] at inside
      exact inside
  · rintro ⟨place, instr, above, below, found, calls⟩
    obtain ⟨inside, rfl⟩ := Array.getElem?_eq_some_iff.mp found
    have bounded : place - start < (builder.instrs.extract start builder.position).size := by
      rw [Array.size_extract, position, Nat.min_self]
      exact Nat.sub_lt_sub_right above inside
    refine ⟨place - start, bounded, ?_⟩
    simp only [Array.getElem_extract, Nat.add_sub_cancel' above, calls]

namespace Tracks

variable {builder : Builder} {nesting : Nesting} {origins : List (Option Origin)}

/-- The brackets of the builder are those of the nesting. -/
theorem brackets_eq_nil_iff (tracks : Tracks builder nesting origins) :
    builder.brackets = [] ↔ nesting.brackets = [] := by
  rw [← List.map_eq_nil_iff (f := fun bracket : Bracket => bracket.line), tracks.lines,
    List.map_eq_nil_iff]

/-- Nothing has been added since the last entry. -/
theorem ofCovers (size : origins.length = builder.position)
    (lines : builder.brackets.map (·.line) = nesting.brackets.map (·.line))
    (fresh : builder.segmentStart = builder.position)
    (covers : Covers builder.instrs origins builder.entries builder.position) :
    Tracks builder nesting origins := by
  refine ⟨size, lines, fresh ▸ covers, Nat.le_of_eq fresh, ?_⟩
  intro position start stop
  exact absurd stop (Nat.not_lt_of_le (fresh ▸ start))

/-- Once the innermost segment has been recorded, the entries account for everything. -/
theorem flushed (tracks : Tracks builder nesting origins) :
    Covers builder.instrs origins builder.flushInnermost.entries builder.position := by
  obtain ⟨size, lines, covers, started, running⟩ := tracks
  unfold segmentStart at covers started running
  unfold flushInnermost
  cases brackets : builder.brackets with
  | nil =>
      rw [brackets] at covers
      exact covers
  | cons bracket rest =>
      rw [brackets] at covers started running lines
      cases around : nesting.brackets with
      | nil =>
          rw [around] at lines
          exact nomatch lines
      | cons origin outer =>
          rw [around, List.map_cons, List.map_cons, List.cons.injEq] at lines
          rw [around] at running
          dsimp only [flush] at covers started running ⊢
          split
          · rename_i filled
            refine covers.push rfl filled lines.1 running ?_
            rw [callsFrom_iff]
            simp only [Code.contains_iff, and_assoc]
          · rename_i nothing
            have same : bracket.segmentStart = builder.position :=
              Nat.le_antisymm started (Nat.le_of_not_lt nothing)
            exact same ▸ covers

theorem emit (tracks : Tracks builder nesting origins) (instr : Instr) :
    Tracks (builder.emit instr) nesting (origins ++ [nesting.brackets.head?]) := by
  have size : (origins ++ [nesting.brackets.head?]).length = (builder.emit instr).position := by
    rw [List.length_append, tracks.size, position_emit, List.length_singleton]
  have grown := tracks.covers.emit tracks.started tracks.size instr nesting.brackets.head?
  have last : (origins ++ [nesting.brackets.head?])[builder.position]? =
      some nesting.brackets.head? := by
    rw [← tracks.size, List.getElem?_concat_length]
  have start : builder.brackets ≠ [] →
      (builder.emit instr).segmentStart = builder.segmentStart := by
    intro inside
    unfold segmentStart
    cases brackets : builder.brackets with
    | nil => exact absurd brackets inside
    | cons bracket rest => simp only [Builder.emit, brackets]
  by_cases outside : builder.brackets = []
  · have free := tracks.brackets_eq_nil_iff.mp outside
    have ends : builder.segmentStart = builder.position := by rw [segmentStart, outside]
    have next : (builder.emit instr).segmentStart = (builder.emit instr).position := by
      simp only [segmentStart, Builder.emit, outside]
    refine ofCovers size tracks.lines next (grown.skip ?_ ?_)
    · rw [ends, position_emit]
      exact Nat.le_succ _
    · intro position above below origin
      rw [ends] at above
      rw [position_emit] at below
      obtain rfl : position = builder.position := by omega
      rw [last, free]
      intro impossible
      cases impossible
  · rw [← start outside] at grown
    refine ⟨size, tracks.lines, grown, ?_, ?_⟩
    · rw [start outside, position_emit]
      exact Nat.le_succ_of_le tracks.started
    · intro position above below
      rw [start outside] at above
      rw [position_emit] at below
      rcases Nat.lt_succ_iff_lt_or_eq.mp below with early | rfl
      · rw [List.getElem?_append_left (tracks.size ▸ early)]
        exact tracks.running position above early
      · exact last

theorem emitUnmapped (tracks : Tracks builder nesting origins) (instr : Instr) :
    Tracks (builder.emitUnmapped instr) nesting (origins ++ [none]) := by
  have instrs : (builder.emitUnmapped instr).instrs = builder.instrs.push instr := by
    rw [Builder.emitUnmapped, restartInnermost_instrs, Builder.emit, flushInnermost_instrs]
  have position : (builder.emitUnmapped instr).position = builder.position + 1 := by
    rw [Builder.position, instrs, Array.size_push, Builder.position]
  refine ofCovers ?_ ?_ ?_ ?_
  · rw [List.length_append, tracks.size, position, List.length_singleton]
  · rw [Builder.emitUnmapped, restartInnermost_lines]
    exact flushInnermost_brackets builder ▸ tracks.lines
  · exact restartInnermost_segmentStart _
  · rw [instrs, Builder.emitUnmapped, restartInnermost_entries, ← Builder.emitUnmapped, position]
    have grown := tracks.flushed.emit (Nat.le_refl _) tracks.size instr none
    refine grown.skip (Nat.le_succ _) fun place above below origin => ?_
    obtain rfl : place = builder.position := by omega
    rw [← tracks.size, List.getElem?_concat_length]
    intro impossible
    cases impossible

theorem openSource (tracks : Tracks builder nesting origins) (line : Nat) :
    Tracks (builder.openSource line)
      ⟨nesting.opened + 1, ⟨nesting.opened, line⟩ :: nesting.brackets⟩ origins := by
  have instrs : (builder.openSource line).instrs = builder.instrs := flushInnermost_instrs builder
  have position : (builder.openSource line).position = builder.position := by
    rw [Builder.position, instrs, Builder.position]
  refine ofCovers (position ▸ tracks.size) ?_ rfl ?_
  · exact congrArg (line :: ·) (flushInnermost_brackets builder ▸ tracks.lines)
  · rw [instrs, position]
    exact tracks.flushed

theorem closeSource (tracks : Tracks builder nesting origins) :
    Tracks builder.closeSource ⟨nesting.opened, nesting.brackets.tail⟩ origins := by
  have flushed := tracks.flushed
  have lines := tracks.lines
  unfold flushInnermost at flushed
  unfold Builder.closeSource
  cases brackets : builder.brackets with
  | nil =>
      have free := tracks.brackets_eq_nil_iff.mp brackets
      refine ⟨tracks.size, ?_, tracks.covers, tracks.started, ?_⟩
      · rw [brackets, free]
        rfl
      · have running := tracks.running
        rw [free] at running ⊢
        exact running
  | cons bracket rest =>
      rw [brackets] at flushed lines
      have instrs := flush_instrs builder bracket
      have position : (builder.flush bracket).position = builder.position := by
        rw [Builder.position, instrs, Builder.position]
      refine ofCovers ?_ ?_ (restartInnermost_segmentStart _) ?_
      · rw [Builder.position, restartInnermost_instrs]
        exact tracks.size.trans position.symm
      · rw [restartInnermost_lines]
        exact (congrArg List.tail lines).trans List.map_tail.symm
      · rw [Builder.position, restartInnermost_instrs, restartInnermost_entries]
        dsimp only
        rw [instrs]
        exact flushed

/-- What a builder makes of one command. -/
theorem obey (tracks : Tracks builder nesting origins) (command : Command) :
    ∃ later, Tracks (builder.obey command) later
      (origins ++ Builder.origins nesting (stepsOf [command])) ∧
        ∀ rest, Builder.origins nesting (stepsOf (command :: rest)) =
          Builder.origins nesting (stepsOf [command]) ++ Builder.origins later (stepsOf rest) := by
  have same : builder.Tracks nesting (origins ++ []) := by rwa [List.append_nil]
  cases command with
  | step step =>
      cases step with
      | emit instr => exact ⟨nesting, tracks.emit instr, fun _ => rfl⟩
      | emitUnmapped instr => exact ⟨nesting, tracks.emitUnmapped instr, fun _ => rfl⟩
      | openSource line => exact ⟨_, same.openSource line, fun _ => rfl⟩
      | closeSource => exact ⟨_, same.closeSource, fun _ => rfl⟩
  | newLabel =>
      refine ⟨nesting, ?_, fun _ => rfl⟩
      exact ⟨same.size, same.lines, same.covers, same.started, same.running⟩
  | bind label =>
      refine ⟨nesting, ?_, fun _ => rfl⟩
      unfold Builder.obey Builder.bind
      dsimp only
      split
      · rename_i bound bind
        split at bind
        · cases bind
          exact ⟨same.size, same.lines, same.covers, same.started, same.running⟩
        · exact nomatch bind
        · exact nomatch bind
      · exact same

/-- Any number of commands. -/
theorem obeyAll (tracks : Tracks builder nesting origins) (commands : List Command) :
    ∃ later, Tracks (builder.obeyAll commands) later
      (origins ++ Builder.origins nesting (stepsOf commands)) := by
  induction commands generalizing builder nesting origins with
  | nil => exact ⟨nesting, by rwa [show stepsOf [] = [] from rfl, Builder.origins, List.append_nil]⟩
  | cons command rest ih =>
      obtain ⟨later, obeyed, splits⟩ := tracks.obey command
      obtain ⟨last, all⟩ := ih obeyed
      rw [List.append_assoc, ← splits] at all
      exact ⟨last, all⟩

theorem closeAll (tracks : Tracks builder nesting origins) (count : Nat) :
    ∃ later, Tracks (Builder.closeAll count builder) later origins := by
  induction count generalizing builder nesting with
  | zero => exact ⟨nesting, tracks⟩
  | succ count ih => exact ih tracks.closeSource

end Tracks

theorem closeSource_brackets (builder : Builder) :
    builder.closeSource.brackets.length = builder.brackets.length - 1 := by
  unfold closeSource
  split
  · rename_i brackets
    rw [brackets]
    rfl
  · rename_i brackets
    rw [restartInnermost_brackets_length, brackets]
    rfl

/-- Closing as many brackets as are open leaves none. -/
theorem closeAll_brackets (builder : Builder) :
    (closeAll builder.brackets.length builder).brackets = [] := by
  have closes (count : Nat) (builder : Builder) (enough : builder.brackets.length ≤ count) :
      (closeAll count builder).brackets = [] := by
    induction count generalizing builder with
    | zero => exact List.eq_nil_of_length_eq_zero (Nat.le_zero.mp enough)
    | succ count ih =>
        refine ih builder.closeSource ?_
        rw [closeSource_brackets]
        omega
  exact closes _ builder (Nat.le_refl _)

theorem resolveFirsts_ops {labels : Array (Option Nat)} {entries : Array SourceEntry}
    {position : Nat} {instrs result : List Instr}
    (resolved : resolveFirsts labels entries position instrs = .ok result) :
    result.map (·.op) = instrs.map (·.op) := by
  induction instrs generalizing position result with
  | nil =>
      cases resolved
      rfl
  | cons instr rest ih =>
      simp only [resolveFirsts, Bind.bind, Except.bind] at resolved
      split at resolved
      · cases resolved
      · split at resolved
        · cases resolved
        · rename_i others more
          cases resolved
          exact congrArg (instr.op :: ·) (ih more)

theorem resolveSeconds_ops {labels : Array (Option Nat)} {entries : Array SourceEntry}
    {position : Nat} {instrs result : List Instr}
    (resolved : resolveSeconds labels entries position instrs = .ok result) :
    result.map (·.op) = instrs.map (·.op) := by
  induction instrs generalizing position result with
  | nil =>
      cases resolved
      rfl
  | cons instr rest ih =>
      simp only [resolveSeconds, Bind.bind, Except.bind] at resolved
      split at resolved
      · cases resolved
      · split at resolved
        · cases resolved
        · rename_i others more
          cases resolved
          exact congrArg (instr.op :: ·) (ih more)

/-- Finishing closes the brackets and changes nothing but operands. -/
theorem finish_eq_ok {builder : Builder} {code : Code} (finished : builder.finish = .ok code) :
    code.entries = (closeAll builder.brackets.length builder).entries ∧
      code.instrs.toList.map (·.op) = builder.instrs.toList.map (·.op) ∧
      code.sourceName = (closeAll builder.brackets.length builder).sourceName := by
  simp only [finish, Bind.bind, Except.bind] at finished
  split at finished
  · cases finished
  · rename_i firsts resolved
    split at finished
    · cases finished
    · rename_i seconds also
      cases finished
      have same := (resolveSeconds_ops also).trans (resolveFirsts_ops resolved)
      rw [closeAll_instrs] at same
      exact ⟨rfl, same, rfl⟩

theorem obeyAll_instrs (builder : Builder) (commands : List Command) :
    (builder.obeyAll commands).instrs.toList =
      builder.instrs.toList ++ instrsOf (stepsOf commands) := by
  induction commands generalizing builder with
  | nil => exact (List.append_nil _).symm
  | cons command rest ih =>
      refine (ih (builder.obey command)).trans ?_
      cases command with
      | step step =>
          rw [show builder.obey (.step step) = builder.apply step from rfl, apply_instrs]
          cases step with
          | emit | emitUnmapped => exact List.append_assoc _ _ _
          | openSource | closeSource => exact congrArg (· ++ _) (List.append_nil _)
      | newLabel => rfl
      | bind label =>
          have same : (builder.obey (.bind label)).instrs = builder.instrs := by
            unfold obey bind
            dsimp only
            split
            · rename_i bound bind
              split at bind
              · cases bind
                rfl
              · exact nomatch bind
              · exact nomatch bind
            · rfl
          rw [same]
          rfl

/-- Once all brackets are closed the entries account for all instructions. -/
theorem closed_covers (sourceName : Option String) (commands : List Command) :
    let builder := obeyAll { sourceName } commands
    Covers builder.instrs (origins {} (stepsOf commands))
      (closeAll builder.brackets.length builder).entries builder.position := by
  have fresh : Tracks { sourceName } {} [] := .ofCovers rfl rfl rfl .empty
  obtain ⟨later, obeyed⟩ := fresh.obeyAll commands
  obtain ⟨last, closed⟩ := obeyed.closeAll (obeyAll { sourceName } commands).brackets.length
  have covers := closed.covers
  rw [segmentStart, closeAll_brackets, position, closeAll_instrs, List.nil_append] at covers
  exact covers

/-- The map of finished code accounts for all its instructions, which are those of the steps up to
operands. -/
theorem finish_covers {sourceName : Option String} {commands : List Command} {code : Code}
    (finished : (obeyAll { sourceName } commands).finish = .ok code) :
    ∃ instrs : Array Instr, instrs.toList = instrsOf (stepsOf commands) ∧
      code.instrs.toList.map (·.op) = instrs.toList.map (·.op) ∧
      (origins {} (stepsOf commands)).length = code.size ∧
      Covers instrs (origins {} (stepsOf commands)) code.entries code.size := by
  obtain ⟨entries, ops, -⟩ := finish_eq_ok finished
  have covers := closed_covers sourceName commands
  dsimp only at covers
  rw [← entries, position] at covers
  have given := obeyAll_instrs { sourceName } commands
  generalize (obeyAll { sourceName } commands).instrs = instrs at covers given ops
  rw [show (Array.toList #[] : List Instr) = [] from rfl, List.nil_append] at given
  have same : instrs.size = code.size := by
    have lengths := congrArg List.length ops
    rw [List.length_map, List.length_map] at lengths
    exact lengths.symm
  refine ⟨instrs, given, ops, ?_, same ▸ covers⟩
  rw [origins_length, ← given, ← same, Array.length_toList]

namespace Covers

variable {code : Code} {instrs : Array Instr} {origins : List (Option Origin)} {position : Nat}

/-- The search finds an entry of the bracket that an instruction belongs to. -/
theorem entryAt?_found (covers : Covers instrs origins code.entries code.size)
    (total : origins.length = code.size) {origin : Origin}
    (here : origins[position]? = some (some origin)) :
    ∃ entry ∈ code.entries, code.entryAt? position = some entry ∧ entry.line = origin.line ∧
      ∀ other, entry.contains other = true → origins[other]? = some (some origin) := by
  have inside : position < code.size := total ▸ (List.getElem?_eq_some_iff.mp here).1
  obtain ⟨entry, member, holds⟩ := covers.complete position origin inside here
  obtain ⟨owner, line, all⟩ := covers.owned entry member
  obtain rfl : owner = origin := by
    have both := (all position holds).symm.trans here
    exact Option.some.inj (Option.some.inj both)
  have found := (Code.entryAt?_eq_some_iff covers.inOrder covers.noneEmpty).mpr ⟨member, holds⟩
  exact ⟨entry, member, found, line, all⟩

/-- It finds none exactly for an instruction of no bracket, and behind the last one. -/
theorem entryAt?_eq_none_iff (covers : Covers instrs origins code.entries code.size)
    (total : origins.length = code.size) :
    code.entryAt? position = none ↔ origins[position]? = some none ∨ code.size ≤ position := by
  constructor
  · intro nothing
    cases here : origins[position]? with
    | none =>
        rw [← total]
        exact Or.inr (List.getElem?_eq_none_iff.mp here)
    | some origin =>
        cases origin with
        | none => exact Or.inl rfl
        | some origin =>
            obtain ⟨entry, -, found, -⟩ := covers.entryAt?_found total here
            rw [found] at nothing
            exact nomatch nothing
  · intro outside
    refine Option.eq_none_iff_forall_ne_some.mpr fun entry found => ?_
    obtain ⟨member, holds⟩ := (Code.entryAt?_eq_some_iff covers.inOrder covers.noneEmpty).mp found
    obtain ⟨owner, line, all⟩ := covers.owned entry member
    have here := all position holds
    rcases outside with free | beyond
    · exact nomatch free.symm.trans here
    · rw [List.getElem?_eq_none (total ▸ beyond)] at here
      exact nomatch here

end Covers

end Builder

/-- The source map of the code says exactly which bracket each instruction of the steps came
from. -/
structure Code.MapsExactly (code : Code) (steps : List Builder.Step) : Prop where
  opcodes : code.instrs.toList.map (·.op) = (Builder.instrsOf steps).map (·.op)
  inOrder : Code.InOrder code.entries
  noneEmpty : Code.NoneEmpty code.entries
  bounded : ∀ entry ∈ code.entries, entry.stop ≤ code.size
  /-- The search finds an entry of the bracket that was innermost. -/
  found : ∀ {position origin}, (Builder.origins {} steps)[position]? = some (some origin) →
    ∃ entry ∈ code.entries, code.entryAt? position = some entry ∧ entry.line = origin.line ∧
      ∀ other, entry.contains other = true →
        (Builder.origins {} steps)[other]? = some (some origin)
  /-- It finds none for an instruction of no bracket, and behind the last one. -/
  absent : ∀ position, code.entryAt? position = none ↔
    (Builder.origins {} steps)[position]? = some none ∨ code.size ≤ position
  callSites : ∀ entry ∈ code.entries, entry.isCallSite = true ↔
    ∃ position op, entry.contains position = true ∧ code.opcodeAt? position = some op ∧
      op.isCall = true

/-- Whatever a builder has been asked, the source map of the code that it finishes is exact. -/
theorem Builder.finish_maps_exactly {sourceName : Option String} {commands : List Command}
    {code : Code} (finished : (obeyAll { sourceName } commands).finish = .ok code) :
    code.MapsExactly (stepsOf commands) := by
  obtain ⟨instrs, given, ops, total, covers⟩ := finish_covers finished
  refine ⟨?_, covers.inOrder, covers.noneEmpty, covers.bounded, covers.entryAt?_found total,
    fun _ => covers.entryAt?_eq_none_iff total, ?_⟩
  · rw [ops, given]
  · have opcode (place : Nat) : code.opcodeAt? place = instrs[place]?.map (·.op) := by
      have here := congrArg (·[place]?) ops
      simp only [List.getElem?_map, Array.getElem?_toList] at here
      exact here
    intro entry member
    rw [covers.callSites entry member]
    simp only [opcode, Option.map_eq_some_iff]
    constructor
    · rintro ⟨place, instr, holds, here, calls⟩
      exact ⟨place, instr.op, holds, ⟨instr, here, rfl⟩, calls⟩
    · rintro ⟨place, _, holds, ⟨instr, here, rfl⟩, calls⟩
      exact ⟨place, instr, holds, here, calls⟩

/-- Brackets inside each other, instructions of no line, a label that is bound twice, a bracket that
is closed too often and one that is left open. -/
def Builder.tangled : List Command :=
  [.newLabel, .step (.emit { op := .pop }), .step (.openSource 3),
    .step (.emit { op := .jump, first := .label 0 }), .step (.openSource 4),
    .step (.emit { op := .callValue, first := .int 0 }), .step .closeSource,
    .step (.emitUnmapped { op := .return }), .bind 0, .bind 0, .step (.emit { op := .pop }),
    .step .closeSource, .step .closeSource, .step (.openSource 9), .step (.emit { op := .dup2 })]

theorem Builder.tangled_maps_exactly :
    ∃ code, (obeyAll {} tangled).finish = .ok code ∧
      code.entries.toList =
        [⟨1, 2, 3, false⟩, ⟨2, 3, 4, true⟩, ⟨4, 5, 3, false⟩, ⟨5, 6, 9, false⟩] ∧
      code.MapsExactly (stepsOf tangled) := by
  have computed : (obeyAll {} tangled).finish.toOption.map (·.entries.toList) =
      some [⟨1, 2, 3, false⟩, ⟨2, 3, 4, true⟩, ⟨4, 5, 3, false⟩, ⟨5, 6, 9, false⟩] := by
    decide +kernel
  cases finished : (obeyAll {} tangled).finish with
  | error fault =>
      rw [finished] at computed
      exact nomatch computed
  | ok code =>
      rw [finished] at computed
      exact ⟨code, rfl, Option.some.inj computed, finish_maps_exactly finished⟩

end MiniScript
