import MiniScript.Interpreter
import MiniScript.Proofs.Compiler.Acceptance
import MiniScript.Proofs.Datum.Beside
import MiniScript.Proofs.Evaluation.Driven
import MiniScript.Proofs.Heap.Names
import MiniScript.Proofs.Parser.Assignment

/-!
# Reading back the text of a value

The text of a value without functions is a literal of the language. A program that
assigns it to a variable leaves a value there that shows the same datum, with the
entries of its maps in the same order, and that is equal to the first one.
-/

namespace MiniScript

variable {σ : Type} {limit : Nat} {datum : Datum}

namespace Compiler.Node

/-- There is nothing in a literal that could be refused. -/
theorem not_has_of_datum (plain : datum.Plain limit) {literal : Expr}
    (same : literal.bare = datum.literal.bare) (fault : CompileFault) :
    ¬ (Node.expr literal).Has fault := by
  induction plain generalizing literal with
  | null =>
      obtain ⟨span, id, rfl⟩ := Expr.eq_null_of_bare same
      exact not_has_of_literal rfl fault
  | integer =>
      obtain ⟨span, id, rfl⟩ := Parser.Readable.eq_number_of_bare same
      exact not_has_of_literal rfl fault
  | text =>
      obtain ⟨span, id, rfl⟩ := Expr.eq_text_of_bare same
      exact not_has_of_literal rfl fault
  | list _ ih =>
      rw [Datum.literal, Expr.bare_list, Datum.literals_eq, List.map_map] at same
      obtain ⟨span, id, exprs, rfl, parts⟩ := Expr.eq_list_of_bare same
      rw [has_iff]
      rintro (own | ⟨part, member, has⟩)
      · cases own
      · obtain ⟨item, inside, rfl⟩ : ∃ item ∈ exprs, Node.expr item = part := by
          simpa [Node.parts, bodyOf, operands] using member
        obtain ⟨datum, found, same⟩ := exists_mem_of_forall₂ (forall₂_of_map_eq parts) inside
        exact ih datum found same has
  | map _ _ _ keys values =>
      rw [Datum.literal, Expr.bare_map, Datum.literalPairs_eq, List.map_map] at same
      obtain ⟨span, id, exprs, rfl, parts⟩ := Expr.eq_map_of_bare same
      rw [has_iff]
      rintro (own | ⟨part, member, has⟩)
      · cases own
      · obtain ⟨entry, inside, which⟩ : ∃ entry ∈ exprs,
            part = Node.expr entry.1 ∨ part = Node.expr entry.2 := by
          obtain ⟨operand, found, rfl⟩ := List.mem_map.mp member
          obtain ⟨entry, inside, either⟩ := List.mem_flatMap.mp found
          refine ⟨entry, inside, ?_⟩
          simpa using either
        obtain ⟨pair, found, same⟩ := exists_mem_of_forall₂ (forall₂_of_map_eq parts) inside
        obtain ⟨sameKey, sameValue⟩ := Prod.ext_iff.mp same
        rcases which with rfl | rfl
        · exact keys pair found sameKey has
        · exact values pair found sameValue has

end Compiler.Node

namespace Compiler

/-- There are no functions in a literal. -/
theorem exprFew_of_datum (plain : datum.Plain limit) {literal : Expr}
    (same : literal.bare = datum.literal.bare) : exprFew literal = true := by
  induction plain generalizing literal with
  | null =>
      obtain ⟨span, id, rfl⟩ := Expr.eq_null_of_bare same
      rfl
  | integer =>
      obtain ⟨span, id, rfl⟩ := Parser.Readable.eq_number_of_bare same
      rfl
  | text =>
      obtain ⟨span, id, rfl⟩ := Expr.eq_text_of_bare same
      rfl
  | list _ ih =>
      rw [Datum.literal, Expr.bare_list, Datum.literals_eq, List.map_map] at same
      obtain ⟨span, id, exprs, rfl, parts⟩ := Expr.eq_list_of_bare same
      refine exprsFew_of_forall fun item inside => ?_
      obtain ⟨datum, found, same⟩ := exists_mem_of_forall₂ (forall₂_of_map_eq parts) inside
      exact ih datum found same
  | map _ _ _ keys values =>
      rw [Datum.literal, Expr.bare_map, Datum.literalPairs_eq, List.map_map] at same
      obtain ⟨span, id, exprs, rfl, parts⟩ := Expr.eq_map_of_bare same
      refine entriesFew_of_forall fun entry inside => ?_
      obtain ⟨pair, found, same⟩ := exists_mem_of_forall₂ (forall₂_of_map_eq parts) inside
      obtain ⟨sameKey, sameValue⟩ := Prod.ext_iff.mp same
      exact ⟨keys pair found sameKey, values pair found sameValue⟩

end Compiler

namespace Heap

/-- A store in a map leaves the lists and the later maps alone. -/
theorem Preserves.insert (heap : Heap) (map : MapRef) (key value : Value) :
    Preserves (map.index + 1) heap (heap.insert map key value) where
  lists _ _ := rfl
  maps index _ above := by
    rw [Heap.insert, modifyMap, Array.getElem?_modify, if_neg (by omega)]
  scopes := rfl

end Heap

/-- An assignment of a literal to a variable that nobody watches. -/
theorem Evaluation.assignment_builds {host : Host σ} {scope : ScopeRef} {world : World σ}
    {rounds : Nat} {id : NodeId} {ident : Ident} {literal : Expr} (plain : datum.Plain limit)
    (room : limit ≤ structureDepth) (same : literal.bare = datum.literal.bare)
    (inside : (world.heap.vars scope).index < world.heap.maps.size)
    (free : (world.heap.mapAt (world.heap.vars scope)).interceptors = []) :
    ∃ value heap, (Evaluation.stmts host scope rounds [.assign id (.name ident) none literal]).Comes
        world (.ok .normal) { world with heap } ∧
      heap.getLocal? scope ident.name = some value ∧
      heap.Keeps ((world.heap.vars scope).index + 1) value datum := by
  obtain ⟨value, heap, comes, grows, keeps⟩ :=
    @literal_builds σ ((world.heap.vars scope).index + 1) limit scope datum plain room literal same
      world inside
  generalize place : world.heap.vars scope = map at *
  have vars : heap.vars scope = map := by
    rw [← place, Heap.vars, Heap.vars, Heap.scopeAt, Heap.scopeAt, grows.scopes]
  have object : heap.mapAt map = world.heap.mapAt map := by
    rw [Heap.mapAt, Heap.mapAt, grows.maps map.index inside (Nat.zero_le _)]
  have unwatched : heap.interceptor? map (.text ident.name) = none := by
    rw [Heap.interceptor?, object, free]
    rfl
  have stored : (assignVar host scope ident.name value).Comes { world with heap } (.ok ())
      { world with heap := heap.insert map (.text ident.name) value } := by
    refine comes_bind.mpr (Or.inl ⟨map, _, comes_consult.mpr ⟨?_, rfl⟩, ?_⟩)
    · exact congrArg Except.ok vars.symm
    · exact congrArg some (World.store_of_no_interceptor host unwatched value)
  have preserves := Heap.Preserves.insert heap map (.text ident.name) value
  refine ⟨value, _, ?_, ?_, keeps.later preserves⟩
  · rw [stmts, stmt, stmts]
    exact comes_bind.mpr (Or.inl ⟨.normal, _, comes_bind.mpr (Or.inl ⟨value, _, comes,
      comes_bind.mpr (Or.inl ⟨(), _, stored, rfl⟩)⟩), rfl⟩)
  · have still : (heap.insert map (.text ident.name) value).vars scope = map := vars
    rw [Heap.getLocal?, still]
    exact Heap.getNamed?_insertNamed (Nat.lt_of_lt_of_le inside grows.maps_size) _ value

namespace Token

theorem lexFrom_nil (offset line : Nat) :
    ∃ span space, lexFrom [] offset line = [⟨.endOfFile, span, space⟩] := by
  rw [lexFrom]
  exact ⟨_, _, rfl⟩

theorem lexes_assign {chars : List Char} {marks : List Mark} (lexes : Lexes chars marks []) :
    Lexes ("__r = ".toList ++ chars) (.name "__r" :: .symbol .assign :: marks) [] := by
  have breaks : Breaks (' ' :: '=' :: ' ' :: chars) := .ofCons (by decide) _
  have goesOn : ∀ char ∈ ['_', 'r'], continuesName char = true := by
    simp only [List.forall_mem_cons]
    exact ⟨rfl, rfl, List.forall_mem_nil _⟩
  have scanned : scan '_' (['_', 'r'] ++ ' ' :: '=' :: ' ' :: chars) =
      ⟨.name "__r", ['_', '_', 'r'], ' ' :: '=' :: ' ' :: chars⟩ :=
    scan_word (by decide) goesOn breaks
  have name : Lexes ('_' :: (['_', 'r'] ++ ' ' :: '=' :: ' ' :: chars)) [.name "__r"]
      (' ' :: '=' :: ' ' :: chars) := .ofScan rfl (by decide) scanned fun _ _ => rfl
  have equals : Lexes ('=' :: ' ' :: chars) [.symbol .assign] (' ' :: chars) :=
    .mark (by decide) rfl (Or.inr (by simp))
  exact (name.blank equals).blank lexes

end Token

/-- The text of a datum behind a name and an equals sign is an assignment of its literal. -/
theorem Program.parse_written (plain : datum.Plain limit) :
    ∃ (id : NodeId) (ident : Ident) (result : Expr), ident.name = "__r" ∧
      result.bare = datum.literal.bare ∧ Program.parse ("__r = " ++ datum.written) =
        .ok [.assign id (.name ident) none result] := by
  have written := Datum.lexes_written plain Token.breaks_nil
  rw [List.append_nil] at written
  obtain ⟨stop, last, spelled⟩ := Token.lexes_assign written [] (List.forall_mem_nil _) 0 1
  obtain ⟨span, space, ended⟩ := Token.lexFrom_nil stop last
  rw [ended] at spelled
  have tokens : Token.lex ("__r = " ++ datum.written) =
      Token.lexFrom ([] ++ ("__r = ".toList ++ datum.written.toList)) 0 1 := by
    rw [Token.lex, String.toList_append, List.nil_append]
  rw [Program.parse, tokens]
  exact Parser.ofTokens_assignment (Datum.literal_tight plain) spelled rfl

theorem Compiler.not_has_of_assignment (plain : datum.Plain limit) {id : NodeId} {ident : Ident}
    {literal : Expr} (same : literal.bare = datum.literal.bare) (fault : CompileFault) :
    ¬ (Node.body [.assign id (.name ident) none literal]).Has fault := by
  rw [Node.has_body]
  rintro ⟨stmt, member, has⟩
  obtain rfl := List.mem_singleton.mp member
  rw [Node.has_iff] at has
  rcases has with own | ⟨part, member, has⟩
  · cases own
  · rcases List.mem_cons.mp member with rfl | member
    · exact Node.has_name.mp has
    · obtain rfl := List.mem_singleton.mp member
      exact Node.not_has_of_datum plain same fault has

namespace Interpreter

/-- A program that assigns a literal to a global variable which nobody watches. -/
theorem run_assignment {world : World σ} {sourceName : Option String} {id : NodeId} {ident : Ident}
    {literal : Expr} {functions result : Array Definition} {code : Code}
    (plain : datum.Plain limit) (room : limit ≤ structureDepth)
    (same : literal.bare = datum.literal.bare)
    (compiled : Compiler.compileProgram sourceName [.assign id (.name ident) none literal]
      functions =
      .ok (code, result)) (positive : 1 ≤ world.limits.burstCycles)
    (inside : (world.heap.vars world.globals).index < world.heap.maps.size)
    (free : (world.heap.mapAt (world.heap.vars world.globals)).interceptors = []) :
    ∃ enough after copy, (∀ fuel, enough ≤ fuel → run .silent fuel code world = (none, after)) ∧
      global? after ident.name = some copy ∧ ∃ base, after.heap.Keeps base copy datum := by
  obtain ⟨copy, final, comes, stored, keeps⟩ :=
    @Evaluation.assignment_builds σ limit datum .silent world.globals world 0 id ident literal plain
      room same inside free
  have few : Compiler.FewLoops [.assign id (.name ident) none literal] := by
    refine ⟨show 0 < UInt32.size by decide, ?_⟩
    rw [Compiler.stmtsFew, Compiler.stmtFew, Compiler.exprFew_of_datum plain same]
    rfl
  obtain ⟨enough, clock, runs⟩ := run_of_evaluated Host.silent_ignoresClock
    (Host.silent_keeps fun _ => rfl) (fun _ _ => rfl) few compiled positive comes
  exact ⟨enough, _, copy, runs, stored, _, keeps⟩

/-- The text of a value without functions reads back, in a fresh interpreter, as a value that looks
the same, with the entries of its maps in order. The first one is equal to it; and it is equal to
the first one, unless a key of that has changed since it was stored and cannot be found any more. -/
theorem repr_reads_back {heap : Heap} {value : Value} (shows : heap.Shows value datum)
    (plain : datum.Plain structureDepth) {limits : Limits} (positive : 1 ≤ limits.burstCycles)
    (state : σ) (sourceName : Option String) :
    ∃ enough after copy,
      (∀ fuel, enough ≤ fuel →
        runSource .silent fuel sourceName ("__r = " ++ heap.repr value)
          (World.initial limits state) = (none, after)) ∧
      global? after "__r" = some copy ∧ after.heap.Stores copy datum ∧
      (after.heap.beside heap).equal (after.heap.adopt value) copy = true ∧
      (heap.Stores value datum →
        (after.heap.beside heap).equal copy (after.heap.adopt value) = true) := by
  obtain ⟨id, ident, literal, named, same, parsed⟩ := Program.parse_written plain
  obtain ⟨code, functions, compiled⟩ := @Compiler.compileBody_ok_of_sound sourceName .program _
    (@Compiler.not_has_of_assignment _ _ plain id ident literal same) Library.initialHeap.functions
  let fresh : World σ := World.initial limits state
  obtain ⟨enough, after, copy, runs, stored, base, keeps⟩ :=
    @run_assignment σ _ _ (fresh.modifyHeap fun heap => { heap with functions }) sourceName id ident
      literal _ _ code plain (Nat.le_refl _) same compiled positive (Nat.zero_lt_succ 5) rfl
  rw [named] at stored
  refine ⟨enough, after, copy, fun fuel many => ?_, stored, keeps.now,
    Heap.equal_beside plain shows keeps, fun stores => Heap.beside_equal plain stores keeps⟩
  have source : compileSource .silent sourceName ("__r = " ++ heap.repr value) fresh =
      (.ok code, fresh.modifyHeap fun heap => { heap with functions }) := by
    rw [compileSource, Heap.repr_of_unfolds plain shows, parsed]
    show adopt .silent (Compiler.compileProgram sourceName _ _) fresh = _
    have accepted : Compiler.compileProgram sourceName [.assign id (.name ident) none literal]
        fresh.heap.functions = .ok (code, functions) := compiled
    rw [accepted]
    rfl
  rw [runSource, source]
  exact runs fuel many

/-- A map with a list and null as its keys. The list has changed since it was stored, so it is not
filed under its present shape. -/
theorem nested_repr_reads_back :
    let object : MapObject :=
      { entries := [⟨.list ⟨0⟩, 7, .number (-5.0)⟩, ⟨.null, 0, .map ⟨1⟩⟩] }
    let heap : Heap := { lists := #[#[.number 1.0, .text "a\"b"]], maps := #[object, {}] }
    let datum : Datum :=
      .map [(.list [.integer 1, .text "a\"b"], .integer (-5)), (.null, .map [])]
    heap.Shows (.map ⟨0⟩) datum ∧ datum.Plain structureDepth ∧
      ∃ enough after copy,
        (∀ fuel, enough ≤ fuel →
          runSource .silent fuel none ("__r = " ++ heap.repr (.map ⟨0⟩))
            (World.initial {} ()) = (none, after)) ∧
        global? after "__r" = some copy ∧ after.heap.Stores copy datum ∧
        (after.heap.beside heap).equal (after.heap.adopt (.map ⟨0⟩)) copy = true ∧
        (heap.Stores (.map ⟨0⟩) datum →
          (after.heap.beside heap).equal copy (after.heap.adopt (.map ⟨0⟩)) = true) := by
  intro object heap datum
  have one : Number.integer? 1.0 = some 1 := by decide +kernel
  have five : Number.integer? (-5.0) = some (-5) := by decide +kernel
  have list : heap.Shows (.list ⟨0⟩) (.list [.integer 1, .text "a\"b"]) :=
    .list (.cons (.integer one) (.cons (.text _) .nil))
  have shows : heap.Shows (.map ⟨0⟩) datum :=
    .map (.cons ⟨trivial, list, .integer five⟩ (.cons ⟨trivial, .null, .map .nil⟩ .nil))
  have key : Datum.Plain 15 (.list [.integer 1, .text "a\"b"]) := by
    refine .list ?_
    simp only [List.forall_mem_cons]
    exact ⟨.integer (by decide), .text (by decide), List.forall_mem_nil _⟩
  have plain : datum.Plain structureDepth := by
    refine .map ?_ ?_ ?_
    · simp [Datum.alike]
    · simp only [List.forall_mem_cons]
      exact ⟨key, .null, List.forall_mem_nil _⟩
    · have empty : Datum.Plain 15 (.map []) :=
        .map .nil (List.forall_mem_nil _) (List.forall_mem_nil _)
      simp only [List.forall_mem_cons]
      exact ⟨.integer (by decide), empty, List.forall_mem_nil _⟩
  exact ⟨shows, plain, repr_reads_back shows plain (by decide) () none⟩

end Interpreter

end MiniScript
