import MiniScript.Proofs.Datum.Equality
import MiniScript.Proofs.Datum.Literal
import MiniScript.Proofs.Evaluation.Following

/-!
# What a literal builds

The evaluation of a literal adds lists and maps to the heap and leaves alone what was
there. The value shows the datum, also in every later heap in which these lists and
maps are still the same. No two keys of a map are equal, so the entries of a new map
come one after the other.
-/

namespace MiniScript

namespace Heap

/-- The lists have not changed, nor have the maps from that place on. -/
structure Preserves (base : Nat) (heap later : Heap) : Prop where
  lists : ∀ index < heap.lists.size, later.lists[index]? = heap.lists[index]?
  maps : ∀ index < heap.maps.size, base ≤ index → later.maps[index]? = heap.maps[index]?
  scopes : later.scopes = heap.scopes

namespace Preserves

variable {base : Nat} {heap later final : Heap}

theorem refl (base : Nat) (heap : Heap) : heap.Preserves base heap :=
  ⟨fun _ _ => rfl, fun _ _ _ => rfl, rfl⟩

theorem trans (first : Preserves base heap later) (second : Preserves base later final) :
    Preserves base heap final where
  lists index inside := by
    have same := first.lists index inside
    rw [Array.getElem?_eq_getElem inside] at same
    obtain ⟨still, _⟩ := Array.getElem?_eq_some_iff.mp same
    rw [second.lists index still, first.lists index inside]
  maps index inside above := by
    have same := first.maps index inside above
    rw [Array.getElem?_eq_getElem inside] at same
    obtain ⟨still, _⟩ := Array.getElem?_eq_some_iff.mp same
    rw [second.maps index still above, first.maps index inside above]
  scopes := second.scopes.trans first.scopes

theorem above (all : Preserves 0 heap later) (base : Nat) : Preserves base heap later :=
  ⟨all.lists, fun index inside _ => all.maps index inside (Nat.zero_le _), all.scopes⟩

theorem maps_size (all : Preserves 0 heap later) : heap.maps.size ≤ later.maps.size := by
  refine Nat.le_of_not_lt fun fewer => ?_
  have same := all.maps later.maps.size fewer (Nat.zero_le _)
  rw [Array.getElem?_eq_none (Nat.le_refl _), Array.getElem?_eq_getElem fewer] at same
  cases same

theorem newList (heap : Heap) (items : Array Value) :
    Preserves 0 heap { heap with lists := heap.lists.push items } :=
  ⟨fun _ inside => Array.getElem?_push_lt inside ▸ (Array.getElem?_eq_getElem inside).symm,
    fun _ _ _ => rfl, rfl⟩

theorem newMap (heap : Heap) (object : MapObject) :
    Preserves 0 heap { heap with maps := heap.maps.push object } :=
  ⟨fun _ _ => rfl,
    fun _ inside _ => Array.getElem?_push_lt inside ▸ (Array.getElem?_eq_getElem inside).symm, rfl⟩

end Preserves

/-- The value shows the datum, now and as long as what it is made of stays the same. -/
def Keeps (base : Nat) (heap : Heap) (value : Value) (datum : Datum) : Prop :=
  ∀ later, heap.Preserves base later → later.Stores value datum

theorem Keeps.later {base : Nat} {heap later : Heap} {value : Value} {datum : Datum}
    (keeps : heap.Keeps base value datum) (preserves : heap.Preserves base later) :
    later.Keeps base value datum :=
  fun final more => keeps final (preserves.trans more)

theorem Keeps.now {base : Nat} {heap : Heap} {value : Value} {datum : Datum}
    (keeps : heap.Keeps base value datum) : heap.Stores value datum :=
  keeps heap (.refl base heap)

/-- An entry as it is filed. -/
def filedPair (heap : Heap) (pair : Value × Value) : Entry :=
  ⟨pair.1, heap.keyShape none pair.1, pair.2⟩

/-- Keys that do not look alike are stored one after the other. -/
theorem withEntries_new {heap : Heap} {limit : Nat} {entries : List Entry}
    {pairs : List (Value × Value)} {passed data : List (Datum × Datum)}
    (stored : List.Forall₂ (fun entry datum => heap.Stores entry.key datum.1) entries passed)
    (related : List.Forall₂ (fun pair datum => heap.Stores pair.1 datum.1) pairs data)
    (apart : (passed ++ data).Pairwise fun pair later => later.1.alike pair.1 = false)
    (plain : ∀ pair ∈ data, pair.1.Plain limit) (room : limit ≤ structureDepth) :
    heap.withEntries entries pairs = entries ++ pairs.map heap.filedPair := by
  induction related generalizing entries passed with
  | nil => exact (List.append_nil entries).symm
  | @cons pair datum pairs data head _ ih =>
      rw [List.forall_mem_cons] at plain
      have new : ∀ entry ∈ entries,
          entryMatches (heap.equalDuring none) pair.1 (heap.keyShape none pair.1)
            entry = false := by
        intro entry member
        obtain ⟨earlier, inside, stores⟩ := exists_mem_of_forall₂ stored member
        have differs := (List.pairwise_append.mp apart).2.2 earlier inside datum List.mem_cons_self
        have unequal : heap.equalDuring none pair.1 entry.key = false := by
          refine Bool.eq_false_iff.mpr fun same => ?_
          cases differs.symm.trans (alike_of_equal plain.1 room head stores same)
        rw [entryMatches, unequal, Bool.and_false]
      have store : heap.withEntry none entries pair.1 pair.2 = entries ++ [heap.filedPair pair] :=
        storeEntry_new new
      have rest := @ih (entries ++ [heap.filedPair pair]) (passed ++ [datum])
        (List.rel_append stored (.cons head .nil)) (by simpa using apart) plain.2
      rw [withEntries, List.foldl_cons, store, ← withEntries, rest]
      simp

theorem Keeps.list {base : Nat} {heap : Heap} {values : List Value} {items : List Datum}
    (keeps : List.Forall₂ (heap.Keeps base) values items) :
    Keeps base { heap with lists := heap.lists.push values.toArray } (.list ⟨heap.lists.size⟩)
      (.list items) := by
  intro later preserves
  have grows := ((Preserves.newList heap values.toArray).above base).trans preserves
  have found : later.items ⟨heap.lists.size⟩ = values.toArray := by
    have same := preserves.lists heap.lists.size (by simp)
    rw [Heap.items, same]
    simp
  refine .list ?_
  rw [found]
  exact keeps.imp fun _ _ keeps => keeps later grows

theorem Keeps.map {base limit : Nat} {heap : Heap} (above : base ≤ heap.maps.size)
    {values : List (Value × Value)} {pairs : List (Datum × Datum)}
    (keeps : List.Forall₂ (fun value pair => heap.Keeps base value.1 pair.1 ∧
      heap.Keeps base value.2 pair.2) values pairs)
    (apart : pairs.Pairwise fun pair later => later.1.alike pair.1 = false)
    (plain : ∀ pair ∈ pairs, pair.1.Plain limit) (room : limit ≤ structureDepth) :
    Keeps base { heap with maps := heap.maps.push { entries := heap.withEntries [] values } }
      (.map ⟨heap.maps.size⟩) (.map pairs) := by
  have entries := withEntries_new .nil (keeps.imp fun _ _ keeps => keeps.1.now) apart plain room
  rw [List.nil_append] at entries
  rw [entries]
  intro later preserves
  have grows := ((Preserves.newMap heap _).above base).trans preserves
  have found : later.entries ⟨heap.maps.size⟩ = values.map heap.filedPair := by
    have same := preserves.maps heap.maps.size (by simp) above
    rw [Heap.entries, Heap.mapAt, same]
    simp
  refine .map ?_
  rw [found, List.forall₂_map_left_iff]
  refine forall₂_imp_of_mem keeps fun pair member value keeps => ?_
  have key := keeps.1 later grows
  exact ⟨keyShape_of_unfolds (plain pair member) keeps.1.now key, key, keeps.2 later grows⟩

end Heap

namespace Expr

variable {expr : Expr}

theorem eq_null_of_bare (same : expr.bare = .null default 0) : ∃ span id, expr = .null span id := by
  cases expr with
  | null span id => exact ⟨span, id, rfl⟩
  | _ => cases same

theorem eq_text_of_bare {value : String} (same : expr.bare = .text value default 0) :
    ∃ span id, expr = .text value span id := by
  cases expr with
  | text found span id =>
      cases same
      exact ⟨span, id, rfl⟩
  | _ => cases same

theorem eq_list_of_bare {items : List Expr} (same : expr.bare = .list default 0 items) :
    ∃ span id exprs, expr = .list span id exprs ∧ exprs.map bare = items := by
  cases expr with
  | list span id exprs =>
      rw [bare_list] at same
      cases same
      exact ⟨span, id, exprs, rfl, rfl⟩
  | _ => cases same

theorem eq_map_of_bare {entries : List (Expr × Expr)} (same : expr.bare = .map default 0 entries) :
    ∃ span id pairs, expr = .map span id pairs ∧ pairs.map bareEntry = entries := by
  cases expr with
  | map span id pairs =>
      rw [bare_map] at same
      cases same
      exact ⟨span, id, pairs, rfl, rfl⟩
  | _ => cases same

end Expr

section

variable {σ : Type} {base limit : Nat} {scope : ScopeRef} {datum : Datum}

/-- The evaluation adds to the heap what keeps showing the datum. -/
def Evaluation.Builds (base : Nat) (evaluation : Evaluation σ Value) (datum : Datum) : Prop :=
  ∀ world : World σ, base ≤ world.heap.maps.size → ∃ value heap,
    evaluation.Comes world (.ok value) { world with heap } ∧ world.heap.Preserves 0 heap ∧
      heap.Keeps base value datum

namespace Evaluation

theorem builds_plain {value : Value} (stores : ∀ heap : Heap, heap.Stores value datum) :
    Builds base (pure value : Evaluation σ Value) datum :=
  fun world _ => ⟨value, world.heap, rfl, .refl 0 world.heap, fun later _ => stores later⟩

theorem exprs_build {exprs : List Expr} {items : List Datum}
    (built : List.Forall₂ (fun item datum => Builds base (expr (σ := σ) scope item) datum)
      exprs items) (world : World σ) (above : base ≤ world.heap.maps.size) :
    ∃ values heap, (Evaluation.exprs scope exprs).Comes world (.ok values) { world with heap } ∧
      world.heap.Preserves 0 heap ∧ List.Forall₂ (heap.Keeps base) values items := by
  induction built generalizing world with
  | nil => exact ⟨[], world.heap, rfl, .refl 0 world.heap, .nil⟩
  | cons head _ ih =>
      obtain ⟨value, middle, first, grows, keeps⟩ := head world above
      obtain ⟨values, final, rest, more, others⟩ :=
        ih { world with heap := middle } (Nat.le_trans above grows.maps_size)
      refine ⟨value :: values, final, ?_, grows.trans more,
        .cons (keeps.later (more.above base)) others⟩
      rw [Evaluation.exprs]
      exact comes_bind.mpr (Or.inl ⟨value, _, first,
        comes_bind.mpr (Or.inl ⟨values, _, rest, rfl⟩)⟩)

theorem entries_build {exprs : List (Expr × Expr)} {pairs : List (Datum × Datum)}
    (built : List.Forall₂ (fun entry pair => Builds base (expr (σ := σ) scope entry.1) pair.1 ∧
      Builds base (expr (σ := σ) scope entry.2) pair.2) exprs pairs) (world : World σ)
    (above : base ≤ world.heap.maps.size) :
    ∃ values heap, (entries scope exprs).Comes world (.ok values) { world with heap } ∧
      world.heap.Preserves 0 heap ∧ List.Forall₂ (fun value pair =>
        heap.Keeps base value.1 pair.1 ∧ heap.Keeps base value.2 pair.2) values pairs := by
  induction built generalizing world with
  | nil => exact ⟨[], world.heap, rfl, .refl 0 world.heap, .nil⟩
  | @cons entry pair _ _ head _ ih =>
      obtain ⟨key, inner, first, grows, keepsKey⟩ := head.1 world above
      have above := Nat.le_trans above grows.maps_size
      obtain ⟨value, middle, second, further, keeps⟩ := head.2 { world with heap := inner } above
      have above := Nat.le_trans above further.maps_size
      obtain ⟨values, final, rest, more, others⟩ := ih { world with heap := middle } above
      refine ⟨(key, value) :: values, final, ?_, (grows.trans further).trans more, .cons
        ⟨keepsKey.later ((further.trans more).above base), keeps.later (more.above base)⟩ others⟩
      rw [entries]
      exact comes_bind.mpr (Or.inl ⟨key, _, first, comes_bind.mpr (Or.inl ⟨value, _, second,
        comes_bind.mpr (Or.inl ⟨values, _, rest, rfl⟩)⟩)⟩)

/-- A literal builds its datum, whatever places its parts have. -/
theorem literal_builds (plain : datum.Plain limit) (room : limit ≤ structureDepth)
    {literal : Expr} (same : literal.bare = datum.literal.bare) :
    Builds base (expr (σ := σ) scope literal) datum := by
  induction plain generalizing literal with
  | null =>
      obtain ⟨span, id, rfl⟩ := Expr.eq_null_of_bare same
      rw [expr]
      exact builds_plain fun _ => .null
  | integer small =>
      obtain ⟨span, id, rfl⟩ := Parser.Readable.eq_number_of_bare same
      rw [expr]
      exact builds_plain fun _ => .integer (Number.integer?_ofInteger small)
  | text =>
      obtain ⟨span, id, rfl⟩ := Expr.eq_text_of_bare same
      rw [expr]
      exact builds_plain fun _ => .text _
  | @list limit items plain ih =>
      rw [Datum.literal, Expr.bare_list, Datum.literals_eq, List.map_map] at same
      obtain ⟨span, id, exprs, rfl, parts⟩ := Expr.eq_list_of_bare same
      have built : List.Forall₂ (fun item datum => Builds base (expr (σ := σ) scope item) datum)
          exprs items :=
        forall₂_imp_of_mem (forall₂_of_map_eq parts) fun item member _ same =>
          ih item member (Nat.le_of_succ_le room) same
      intro world above
      obtain ⟨values, heap, comes, grows, keeps⟩ := exprs_build built world above
      refine ⟨_, _, ?_, grows.trans (.newList heap values.toArray), .list keeps⟩
      rw [expr]
      exact comes_bind.mpr (Or.inl ⟨values, _, comes, rfl⟩)
  | @map limit pairs apart keys values sameKeys sameValues =>
      have fewer : limit ≤ structureDepth := Nat.le_of_succ_le room
      rw [Datum.literal, Expr.bare_map, Datum.literalPairs_eq, List.map_map] at same
      obtain ⟨span, id, exprs, rfl, parts⟩ := Expr.eq_map_of_bare same
      have built : List.Forall₂ (fun entry pair =>
          Builds base (expr (σ := σ) scope entry.1) pair.1 ∧
            Builds base (expr (σ := σ) scope entry.2) pair.2) exprs pairs := by
        refine forall₂_imp_of_mem (forall₂_of_map_eq parts) fun pair member entry same => ?_
        obtain ⟨sameKey, sameValue⟩ := Prod.ext_iff.mp same
        exact ⟨sameKeys pair member fewer sameKey, sameValues pair member fewer sameValue⟩
      intro world above
      obtain ⟨values, heap, comes, grows, keeps⟩ := entries_build built world above
      refine ⟨_, _, ?_, grows.trans (.newMap heap _),
        .map (Nat.le_trans above grows.maps_size) keeps apart keys fewer⟩
      rw [expr]
      exact comes_bind.mpr (Or.inl ⟨values, _, comes, comes_bind.mpr (Or.inl ⟨_, _, rfl, rfl⟩)⟩)

end Evaluation

end

end MiniScript
