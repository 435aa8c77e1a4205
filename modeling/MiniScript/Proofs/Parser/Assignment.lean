import MiniScript.Proofs.Parser.RoundTrip

/-!
# A program of one assignment

A name, an equals sign and an expression that is written tightly make one statement,
which stores the value of the expression under the name.
-/

namespace MiniScript

theorem Spells.exists_append {marks : List Mark} {tokens rest : List Token}
    (spelled : Spells marks tokens rest) : ∃ read, tokens = read ++ rest := by
  induction marks generalizing tokens with
  | nil => exact ⟨[], spelled⟩
  | cons mark marks ih =>
      obtain ⟨token, others, rfl, _, spelled⟩ := spelled
      obtain ⟨read, rfl⟩ := ih spelled
      exact ⟨token :: read, rfl⟩

namespace Parser

variable {state : State} {tokens rest : List Token} {token : Token} {name : String}

/-- A name that is followed neither by a point nor by a bracket. -/
theorem reads_name (stands : state.Stands 0 (token :: tokens)) (found : token.kind = .name name)
    (follows : Follows 0 suffixLevel tokens) :
    ∃ ident : Ident, ident.name = name ∧ ∃ after : State, after.Stands 0 tokens ∧
      Reads parsePostfix state (.name ident) after := by
  have moved := (stands.advance follows.clear).numbered
  have primary : Reads parsePrimary state (.name ⟨name, state.span, state.advance.nextId⟩) _ :=
    .step (.move (.seen (stands.kind.trans found) (.move (.move .ofPure))))
  exact ⟨_, rfl, _, moved, .step (primary.bind (suffixes_stop follows moved))⟩

/-- A statement that stores the value of an expression under a name. -/
theorem reads_assignment {expr : Expr} (tight : expr.Tight) {assign : Token}
    (found : token.kind = .name name) (equals : assign.kind = .symbol .assign)
    (stands : state.Stands 0 (token :: assign :: tokens)) (spelled : Spells expr.marks tokens rest)
    (follows : Follows 0 orLevel rest) :
    ∃ (id : NodeId) (ident : Ident) (result : Expr), ident.name = name ∧
      result.bare = expr.bare ∧ ∃ after : State, after.Stands 0 rest ∧
        Reads parseStmt state (.assign id (.name ident) none result) after := by
  have opens := (Readable.ofTight tight).begins spelled
  have loose : Follows 0 suffixLevel (assign :: tokens) :=
    ⟨assign, tokens, rfl, by rw [equals]; decide, nofun⟩
  obtain ⟨ident, named, atSign, arrived, target⟩ := reads_name stands.begun found loose
  have behind := arrived.advance opens.clear
  obtain ⟨first, others, split, solid⟩ : Clear 1 tokens := opens.clear
  have still : atSign.advance.skipLineEnds = atSign.advance := by
    rw [split] at behind
    exact behind.skipLineEnds (solid Nat.one_pos)
  obtain ⟨result, atEnd, same, stopped, value⟩ :=
    (Readable.ofTight tight).whole spelled follows _ behind
  have fromTarget : Reads parseFromTarget { state with begun := state.nesting :: state.begun }
      (.assign atEnd.nextId (.name ident) none result)
      { atEnd with nextId := atEnd.nextId + 1 } := by
    refine .step (target.bind (.seen (arrived.kind.trans equals) (.move (.move ?_))))
    rw [still]
    exact value.bind (.move .ofPure)
  have kind := stands.begun.kind.trans found
  exact ⟨_, ident, result, named, same, _, stopped.numbered,
    .step (.move (.seen kind (.step (.seen kind fromTarget))))⟩

/-- At the end of the file nothing is left to be read. -/
theorem reads_end {stmts : List Stmt} {ending : Token} (stands : state.Stands 0 (ending :: rest))
    (ends : ending.kind = .endOfFile) :
    Reads (fun fuel => parseStatements fuel stmts) state stmts.reverse state := by
  have kind := stands.kind.trans ends
  have still : state.skip isSeparator = state := State.skip_of_not (by rw [kind]; rfl)
  refine .step (.move ?_)
  rw [still]
  exact .seen kind .ofPure

/-- A program of one statement that is no keyword. -/
theorem reads_single {stmt : Stmt} {after : State} {ending : Token}
    (stands : state.Stands 0 (token :: tokens)) (found : token.kind = .name name)
    (reads : Reads parseStmt state stmt after) (arrived : after.Stands 0 (ending :: rest))
    (ends : ending.kind = .endOfFile) :
    Reads (fun fuel => parseStatements fuel []) state [stmt] after := by
  have kind := stands.kind.trans found
  have still : state.skip isSeparator = state := State.skip_of_not (by rw [kind]; rfl)
  have last : Reads (fun _ => expectStatementEnd) after () after :=
    .seen (arrived.kind.trans ends) .ofPure
  refine .step (.move ?_)
  rw [still]
  exact .seen kind (reads.bind (last.bind (reads_end arrived ends)))

/-- What assigns an expression to a name is read as such a program. -/
theorem ofTokens_assignment {expr : Expr} (tight : expr.Tight) {name : String}
    {tokens : List Token} {ending : Token}
    (spelled : Spells (.name name :: .symbol .assign :: expr.marks) tokens [ending])
    (ends : ending.kind = .endOfFile) :
    ∃ (id : NodeId) (ident : Ident) (result : Expr), ident.name = name ∧
      result.bare = expr.bare ∧
      Program.ofTokens tokens = .ok [.assign id (.name ident) none result] := by
  obtain ⟨token, _, rfl, found, assign, written, rfl, equals, spelled⟩ := spelled
  have stands : (start token (assign :: written)).Stands 0 (token :: assign :: written) :=
    ⟨rfl, rfl⟩
  have follows : Follows 0 orLevel [ending] := ⟨ending, [], rfl, by rw [ends]; decide, nofun⟩
  obtain ⟨id, ident, result, named, same, after, arrived, reads⟩ :=
    reads_assignment tight found equals stands spelled follows
  have program : Reads (fun fuel => (Task.statements []).run fuel) (start token (assign :: written))
      [.assign id (.name ident) none result] after := reads_single stands found reads arrived ends
  have ended : (start token (assign :: written)).Ended := by
    obtain ⟨read, rfl⟩ := spelled.exists_append
    rw [State.Ended, start, ← List.cons_append, List.getLastD_concat]
    exact ends
  have enough : 16 * (assign :: written).length + (Task.statements []).rank ≤
      fuelFor (token :: assign :: written) := by
    have rank := Task.rank_lt (.statements [])
    rw [fuelFor, List.length_cons (a := token)]
    omega
  obtain ⟨stop, done, _⟩ := program.settled ended rfl trivial enough
  refine ⟨id, ident, result, named, same, ?_⟩
  have reply : parseAll token (assign :: written) =
      .ok [.assign id (.name ident) none result] stop := done
  rw [Program.ofTokens, reply]

end Parser

end MiniScript
