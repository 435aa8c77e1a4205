import MiniScript.Proofs.Datum.Basic

/-!
# Equality of values that show data

Two values that look like the same datum have the same shape, and they are equal: each
key of the first is looked up in the second, and of the keys before its own none is
equal to it. Values that are found equal look alike.
-/

namespace MiniScript

namespace Heap

theorem shapeWithin_list (heap : Heap) {busy : Option MapRef} (remaining : Nat) (ref : ListRef) :
    heap.shapeWithin busy (remaining + 1) (.list ref) =
      ((heap.items ref).toList.map (heap.shapeWithin busy remaining)).foldl Shape.mix
        (heap.shapeWithin busy 0 (.list ref)) := by
  rw [List.foldl_map, Array.foldl_toList]
  rfl

theorem shapeWithin_map_zero (heap : Heap) (ref : MapRef) :
    heap.shapeWithin none 0 (.map ref) =
      Shape.mix (Shape.kindTag .map) (heap.entries ref).length.toUInt64 :=
  if_neg nofun

/-- The shape of an entry of a map. -/
def entryShape (heap : Heap) (remaining : Nat) (entry : Entry) : UInt64 :=
  Shape.mix (heap.shapeWithin none remaining entry.key)
    (heap.shapeWithin none remaining entry.value)

theorem shapeWithin_map (heap : Heap) (remaining : Nat) (ref : MapRef) :
    heap.shapeWithin none (remaining + 1) (.map ref) =
      Shape.mix (heap.shapeWithin none 0 (.map ref))
        (((heap.entries ref).map (heap.entryShape remaining)).foldl (· + ·) 0) := by
  rw [List.foldl_map, shapeWithin_map_zero]
  exact if_neg nofun

section

variable {heap later : Heap} {filing other : Entry → Prop} {limit : Nat} {datum : Datum}
variable {value copy : Value}

/-- The shape of a value is that of the datum. -/
theorem shapeWithin_of_unfolds (plain : datum.Plain limit)
    (unfolds : heap.Unfolds filing value datum) (also : later.Unfolds other copy datum)
    (remaining : Nat) :
    heap.shapeWithin none remaining value = later.shapeWithin none remaining copy := by
  induction plain generalizing value copy remaining with
  | null =>
      cases unfolds
      cases also
      cases remaining <;> rfl
  | integer =>
      cases unfolds with
      | integer known =>
          cases also with
          | integer found =>
              have same := Number.ofNumber_of_integer? known found
              cases remaining <;> exact congrArg (Shape.mix (Shape.kindTag .number)) same
  | text =>
      cases unfolds
      cases also
      cases remaining <;> rfl
  | list _ ih =>
      cases unfolds with
      | @list ref _ unfolds =>
          cases also with
          | @list twin _ also =>
              have size : (heap.items ref).size = (later.items twin).size := by
                rw [← Array.length_toList, unfolds.length_eq, ← also.length_eq, Array.length_toList]
              have empty : heap.shapeWithin none 0 (.list ref) =
                  later.shapeWithin none 0 (.list twin) :=
                congrArg (fun size => Shape.mix (Shape.kindTag .list) (Nat.toUInt64 size)) size
              cases remaining with
              | zero => exact empty
              | succ remaining =>
                  have shapes := map_eq_map_of_both unfolds also
                    fun item member _ _ unfolds also => ih item member unfolds also remaining
                  rw [shapeWithin_list, shapeWithin_list, shapes, empty]
  | map _ _ _ keys values =>
      cases unfolds with
      | @map ref _ unfolds =>
          cases also with
          | @map twin _ also =>
              have size : (heap.entries ref).length = (later.entries twin).length :=
                unfolds.length_eq.trans also.length_eq.symm
              have empty : heap.shapeWithin none 0 (.map ref) =
                  later.shapeWithin none 0 (.map twin) := by
                rw [shapeWithin_map_zero, shapeWithin_map_zero, size]
              cases remaining with
              | zero => exact empty
              | succ remaining =>
                  have shapes : (heap.entries ref).map (heap.entryShape remaining) =
                      (later.entries twin).map (later.entryShape remaining) := by
                    refine map_eq_map_of_both unfolds also fun pair member _ _ parts others => ?_
                    unfold entryShape
                    rw [keys pair member parts.key others.key,
                      values pair member parts.value others.value]
                  rw [shapeWithin_map, shapeWithin_map, shapes, empty]

theorem keyShape_of_unfolds (plain : datum.Plain limit)
    (unfolds : heap.Unfolds filing value datum) (also : later.Unfolds other copy datum) :
    heap.keyShape none value = later.keyShape none copy := by
  have same : value.isContainer = copy.isContainer := by
    cases unfolds <;> cases also <;> rfl
  unfold keyShape shape
  rw [same, shapeWithin_of_unfolds plain unfolds also]

end

/-- The answer is there, and it is yes only if `same` holds. -/
def Answers (same : Prop) (answer : Option Bool) : Prop :=
  ∃ found, answer = some found ∧ (found = true → same)

theorem Answers.no {same : Prop} : Answers same (some false) :=
  ⟨false, rfl, nofun⟩

theorem allEqual_answers {equal : Value → Value → Option Bool} {first second : Value → Datum → Prop}
    {lefts rights : List Value} {items others : List Datum}
    (related : List.Forall₂ first lefts items) (also : List.Forall₂ second rights others)
    (size : lefts.length = rights.length)
    (each : ∀ item ∈ items, ∀ left right other, first left item → second right other →
      Answers (item.alike other = true) (equal left right)) :
    Answers (Datum.alikeItems items others = true) (allEqual equal lefts rights) := by
  induction related generalizing rights others with
  | nil =>
      obtain rfl := List.eq_nil_of_length_eq_zero size.symm
      cases also
      exact ⟨true, rfl, fun _ => rfl⟩
  | cons head _ ih =>
      cases also with
      | nil => cases size
      | cons another also =>
          rw [List.forall_mem_cons] at each
          obtain ⟨found, answer, sound⟩ := each.1 _ _ _ head another
          rw [allEqual, answer, Datum.alikeItems, Bool.and_eq_true]
          cases found with
          | false => exact .no
          | true =>
              obtain ⟨found, answer, onward⟩ := ih also (Nat.succ.inj size) each.2
              exact ⟨found, answer, fun yes => ⟨sound rfl, onward yes⟩⟩

theorem searchEntry_answers {equal : Value → Value → Option Bool} {key : Value} {shape : UInt64}
    {entries : List Entry} (each : ∀ entry ∈ entries, (equal key entry.key).isSome = true) :
    ∃ found, searchEntry equal key shape entries = some found ∧
      ∀ entry, found = some entry → entry ∈ entries ∧ equal key entry.key = some true := by
  induction entries with
  | nil => exact ⟨none, rfl, nofun⟩
  | cons entry rest ih =>
      rw [List.forall_mem_cons] at each
      obtain ⟨found, search, sound⟩ := ih each.2
      have later : ∀ other, found = some other →
          other ∈ entry :: rest ∧ equal key other.key = some true := fun other same =>
        ⟨List.mem_cons_of_mem _ (sound other same).1, (sound other same).2⟩
      rw [searchEntry]
      split
      · exact ⟨found, search, later⟩
      · split
        · rename_i same
          refine ⟨some entry, rfl, fun other found => ?_⟩
          cases found
          exact ⟨List.mem_cons_self, same⟩
        · exact ⟨found, search, later⟩
        · rename_i missing
          rw [missing] at each
          cases each.1

theorem findEntry_answers {equal : Value → Value → Option Bool} {key : Value} {shape : UInt64}
    {entries : List Entry} (each : ∀ entry ∈ entries, (equal key entry.key).isSome = true) :
    ∃ found, findEntry equal key shape entries = some found ∧
      ∀ entry, found = some entry → entry ∈ entries ∧ equal key entry.key = some true := by
  unfold findEntry
  split
  · rename_i entry
    obtain ⟨same, answer⟩ := Option.isSome_iff_exists.mp (each entry List.mem_cons_self)
    refine ⟨if same then some entry else none, by rw [answer]; rfl, fun other found => ?_⟩
    cases same with
    | false => cases found
    | true =>
        cases found
        exact ⟨List.mem_cons_self, answer⟩
  · exact searchEntry_answers each

section

variable {heap : Heap} {filing other : Entry → Prop} {limit : Nat} {datum another : Datum}
variable {left right : Value}

theorem allFound_answers {equalKeys equalValues : Value → Value → Option Bool}
    {shapeOf : Value → UInt64} {entries others : List Entry} {pairs against : List (Datum × Datum)}
    (related : List.Forall₂ (heap.UnfoldsEntry filing) entries pairs)
    (also : List.Forall₂ (heap.UnfoldsEntry other) others against)
    (keys : ∀ pair ∈ pairs, ∀ left right another, heap.Unfolds filing left pair.1 →
      heap.Unfolds other right another → Answers (pair.1.alike another = true)
        (equalKeys left right))
    (values : ∀ pair ∈ pairs, ∀ left right another, heap.Unfolds filing left pair.2 →
      heap.Unfolds other right another → Answers (pair.2.alike another = true)
        (equalValues left right)) :
    Answers (Datum.alikePairs pairs against = true)
      (allFound equalKeys equalValues shapeOf others entries) := by
  induction related with
  | nil => exact ⟨true, rfl, fun _ => rfl⟩
  | @cons entry pair _ _ head _ ih =>
      rw [List.forall_mem_cons] at keys values
      have answered : ∀ hit ∈ others, (equalKeys entry.key hit.key).isSome = true := by
        intro hit member
        obtain ⟨_, _, parts⟩ := exists_mem_of_forall₂ also member
        obtain ⟨found, answer, _⟩ := keys.1 _ _ _ head.key parts.key
        rw [answer]
        rfl
      obtain ⟨found, search, sound⟩ :=
        @findEntry_answers equalKeys entry.key (shapeOf entry.key) others answered
      rw [allFound, search]
      cases found with
      | none => exact .no
      | some hit =>
          obtain ⟨member, same⟩ := sound hit rfl
          obtain ⟨partner, inside, parts⟩ := exists_mem_of_forall₂ also member
          obtain ⟨yes, answer, alikeKeys⟩ := keys.1 _ _ _ head.key parts.key
          obtain rfl : true = yes := Option.some.inj (same.symm.trans answer)
          obtain ⟨found, answer, alikeValues⟩ := values.1 _ _ _ head.value parts.value
          dsimp only
          rw [answer]
          cases found with
          | false => exact .no
          | true =>
              obtain ⟨found, answer, onward⟩ := ih keys.2 values.2
              refine ⟨found, answer, fun yes => ?_⟩
              rw [Datum.alikePairs_iff, List.forall_mem_cons, ← Datum.alikePairs_iff]
              exact ⟨⟨partner, inside, alikeKeys rfl, alikeValues rfl⟩, onward yes⟩

/-- With steps enough a comparison has an answer, and values that are found equal look alike. -/
theorem equalWithin_answers (plain : datum.Plain limit) (unfolds : heap.Unfolds filing left datum)
    (also : heap.Unfolds other right another) {fuel : Nat} (enough : limit < fuel) (depth : Nat) :
    Answers (datum.alike another = true) (heap.equalWithin none fuel depth left right) := by
  induction plain generalizing left right another fuel depth with
  | null =>
      obtain ⟨fuel, rfl⟩ := Nat.exists_eq_add_of_le' (Nat.zero_lt_of_lt enough)
      cases unfolds
      rw [equalWithin_scalar _ _ _ _ rfl]
      refine ⟨_, rfl, fun same => ?_⟩
      cases also with
      | null => rfl
      | _ => cases same
  | integer =>
      obtain ⟨fuel, rfl⟩ := Nat.exists_eq_add_of_le' (Nat.zero_lt_of_lt enough)
      cases unfolds with
      | integer known =>
          rw [equalWithin_scalar _ _ _ _ rfl]
          refine ⟨_, rfl, fun same => ?_⟩
          cases also with
          | integer found =>
              rw [Value.sameScalar, Number.beq_of_integer? known found, decide_eq_true_iff] at same
              rw [same, Datum.alike, beq_self_eq_true]
          | _ => cases same
  | text =>
      obtain ⟨fuel, rfl⟩ := Nat.exists_eq_add_of_le' (Nat.zero_lt_of_lt enough)
      cases unfolds
      rw [equalWithin_scalar _ _ _ _ rfl]
      refine ⟨_, rfl, fun same => ?_⟩
      cases also with
      | text other => exact same
      | _ => cases same
  | @list limit items plain ih =>
      obtain ⟨fuel, rfl⟩ := Nat.exists_eq_add_of_le' (Nat.zero_lt_of_lt enough)
      have fewer := Nat.lt_of_succ_lt_succ enough
      cases unfolds with
      | @list ref _ unfolds =>
          cases also with
          | @list twin others also =>
              rw [equalWithin]
              split
              · rename_i same
                subst same
                refine ⟨true, rfl, fun _ => ?_⟩
                have unique := (Unfolds.list unfolds).unique (.list plain) (.list also)
                rw [← unique]
                exact Datum.alike_refl (.list plain)
              · split
                · exact .no
                · split
                  · exact .no
                  · rename_i size
                    simp only [bne_iff_ne, ne_eq, Decidable.not_not] at size
                    exact allEqual_answers unfolds also size fun item member _ _ _ unfolds also =>
                      ih item member unfolds also fewer (depth + 1)
          | _ => exact .no
  | @map limit pairs apart keys values sameKeys sameValues =>
      obtain ⟨fuel, rfl⟩ := Nat.exists_eq_add_of_le' (Nat.zero_lt_of_lt enough)
      have fewer := Nat.lt_of_succ_lt_succ enough
      cases unfolds with
      | @map ref _ unfolds =>
          cases also with
          | @map twin others also =>
              rw [equalWithin]
              split
              · rename_i same
                subst same
                refine ⟨true, rfl, fun _ => ?_⟩
                have plain := Datum.Plain.map apart keys values
                have unique := (Unfolds.map unfolds).unique plain (.map also)
                rw [← unique]
                exact Datum.alike_refl plain
              · split
                · exact .no
                · split
                  · exact .no
                  · split
                    · exact .no
                    · rename_i size
                      simp only [bne_iff_ne, ne_eq, Decidable.not_not] at size
                      rw [unfolds.length_eq, also.length_eq] at size
                      rw [Datum.alike, size, beq_self_eq_true, Bool.true_and]
                      exact allFound_answers unfolds also
                        (fun pair member _ _ _ unfolds also =>
                          sameKeys pair member unfolds also fewer 0)
                        fun pair member _ _ _ unfolds also =>
                          sameValues pair member unfolds also fewer (depth + 1)
          | _ => exact .no

/-- A key that answers to no entry is stored behind them. -/
theorem storeEntry_new {isMatch : Entry → Bool} {key value : Value} {shape : UInt64}
    {entries : List Entry} (new : ∀ entry ∈ entries, isMatch entry = false) :
    storeEntry isMatch key shape value entries = entries ++ [⟨key, shape, value⟩] := by
  induction entries with
  | nil => rfl
  | cons entry rest ih =>
      rw [List.forall_mem_cons] at new
      rw [storeEntry, new.1, if_neg Bool.false_ne_true, ih new.2, List.cons_append]

/-- The entry that is meant is found if the keys before it are others. -/
theorem findEntry_of_first {equal : Value → Value → Option Bool} {key : Value} {shape : UInt64}
    {before after : List Entry} {entry : Entry}
    (others : ∀ other ∈ before, equal key other.key = some false ∨
      key.isContainer = true ∧ other.shape ≠ shape)
    (filed : key.isContainer = true → entry.shape = shape)
    (same : equal key entry.key = some true) :
    findEntry equal key shape (before ++ entry :: after) = some (some entry) := by
  have search : searchEntry equal key shape (before ++ entry :: after) = some (some entry) := by
    induction before with
    | nil =>
        have tried : ¬ (key.isContainer && entry.shape != shape) = true := by
          rw [Bool.and_eq_true, bne_iff_ne, not_and, not_not]
          exact filed
        rw [List.nil_append, searchEntry, if_neg tried, same]
    | cons other before ih =>
        rw [List.forall_mem_cons] at others
        rw [List.cons_append, searchEntry]
        split
        · exact ih others.2
        · rename_i tried
          rcases others.1 with differs | ⟨container, elsewhere⟩
          · rw [differs]
            exact ih others.2
          · rw [container, Bool.true_and] at tried
            exact absurd (bne_iff_ne.mpr elsewhere) tried
  unfold findEntry
  split
  · rename_i only single
    cases before with
    | nil =>
        obtain ⟨rfl, rfl⟩ := List.cons.inj single
        rw [same]
        rfl
    | cons _ before =>
        have length := congrArg List.length single
        simp at length
  · exact search

theorem allEqual_of_same {equal : Value → Value → Option Bool} {first second : Value → Datum → Prop}
    {lefts rights : List Value} {items : List Datum}
    (related : List.Forall₂ first lefts items) (also : List.Forall₂ second rights items)
    (each : ∀ item ∈ items, ∀ left right, first left item → second right item →
      equal left right = some true) : allEqual equal lefts rights = some true := by
  induction related generalizing rights with
  | nil =>
      cases also
      rfl
  | cons head _ ih =>
      cases also with
      | cons another also =>
          rw [List.forall_mem_cons] at each
          rw [allEqual, each.1 _ _ head another]
          exact ih also each.2

/-- Each entry is found where it stands, because the keys before it are others. -/
theorem allFound_of_same {equalKeys equalValues : Value → Value → Option Bool}
    {entries before others : List Entry} {passed pairs : List (Datum × Datum)}
    (related : List.Forall₂ (heap.UnfoldsEntry filing) entries pairs)
    (earlier : List.Forall₂ (heap.UnfoldsEntry heap.Filed) before passed)
    (also : List.Forall₂ (heap.UnfoldsEntry heap.Filed) others pairs)
    (apart : (passed ++ pairs).Pairwise fun pair later => later.1.alike pair.1 = false)
    (plain : ∀ pair ∈ pairs, pair.1.Plain limit)
    (answers : ∀ pair ∈ pairs, ∀ left right another, heap.Unfolds filing left pair.1 →
      heap.Stores right another → Answers (pair.1.alike another = true) (equalKeys left right))
    (keys : ∀ pair ∈ pairs, ∀ left right, heap.Unfolds filing left pair.1 →
      heap.Stores right pair.1 → equalKeys left right = some true)
    (values : ∀ pair ∈ pairs, ∀ left right, heap.Unfolds filing left pair.2 →
      heap.Stores right pair.2 → equalValues left right = some true) :
    allFound equalKeys equalValues (heap.keyShape none) (before ++ others) entries =
      some true := by
  induction related generalizing before others passed with
  | nil => rfl
  | @cons entry pair entries pairs head _ ih =>
      cases also with
      | @cons other _ others _ partner also =>
          rw [List.forall_mem_cons] at plain answers keys values
          have unequal : ∀ hit ∈ before, equalKeys entry.key hit.key = some false := by
            intro hit member
            obtain ⟨another, inside, parts⟩ := exists_mem_of_forall₂ earlier member
            obtain ⟨found, answer, alike⟩ := answers.1 _ _ _ head.key parts.key
            have differs := (List.pairwise_append.mp apart).2.2 another inside pair
              List.mem_cons_self
            cases found with
            | false => exact answer
            | true => cases differs.symm.trans (alike rfl)
          have filed : other.shape = heap.keyShape none entry.key := by
            rw [partner.filed, keyShape_of_unfolds plain.1 head.key partner.key]
          have here := keys.1 _ _ head.key partner.key
          rw [allFound,
            findEntry_of_first (fun hit member => .inl (unequal hit member)) (fun _ => filed) here]
          dsimp only
          rw [values.1 _ _ head.value partner.value]
          have rest := @ih (before ++ [other]) others (passed ++ [pair])
            (List.rel_append earlier (.cons partner .nil)) also (by simpa using apart) plain.2
            answers.2 keys.2 values.2
          simpa using rest

/-- Values that look like the same datum are equal, if the keys of the second can be found. -/
theorem equalWithin_of_same (plain : datum.Plain limit) (unfolds : heap.Unfolds filing left datum)
    (stores : heap.Stores right datum) {fuel depth : Nat} (enough : limit < fuel)
    (room : depth + limit ≤ structureDepth) :
    heap.equalWithin none fuel depth left right = some true := by
  induction plain generalizing left right fuel depth with
  | null =>
      obtain ⟨fuel, rfl⟩ := Nat.exists_eq_add_of_le' (Nat.zero_lt_of_lt enough)
      cases unfolds
      cases stores
      rfl
  | integer =>
      obtain ⟨fuel, rfl⟩ := Nat.exists_eq_add_of_le' (Nat.zero_lt_of_lt enough)
      cases unfolds with
      | integer known =>
          cases stores with
          | integer found =>
              rw [equalWithin_scalar _ _ _ _ rfl, Value.sameScalar,
                Number.beq_of_integer? known found, decide_eq_true rfl]
  | text =>
      obtain ⟨fuel, rfl⟩ := Nat.exists_eq_add_of_le' (Nat.zero_lt_of_lt enough)
      cases unfolds
      cases stores
      rw [equalWithin_scalar _ _ _ _ rfl, Value.sameScalar, beq_self_eq_true]
  | @list limit items plain ih =>
      obtain ⟨fuel, rfl⟩ := Nat.exists_eq_add_of_le' (Nat.zero_lt_of_lt enough)
      have fewer := Nat.lt_of_succ_lt_succ enough
      cases unfolds with
      | @list ref _ unfolds =>
          cases stores with
          | @list twin _ stores =>
              have size : (heap.items ref).size = (heap.items twin).size :=
                unfolds.length_eq.trans stores.length_eq.symm
              rw [equalWithin]
              split
              · rfl
              · rw [if_neg (by omega), size, bne_self_eq_false, if_neg Bool.false_ne_true]
                exact allEqual_of_same unfolds stores fun item member _ _ unfolds stores =>
                  ih item member unfolds stores fewer (by omega)
  | @map limit pairs apart keys values sameKeys sameValues =>
      obtain ⟨fuel, rfl⟩ := Nat.exists_eq_add_of_le' (Nat.zero_lt_of_lt enough)
      have fewer := Nat.lt_of_succ_lt_succ enough
      cases unfolds with
      | @map ref _ unfolds =>
          cases stores with
          | @map twin _ stores =>
              have size : (heap.entries ref).length = (heap.entries twin).length :=
                unfolds.length_eq.trans stores.length_eq.symm
              rw [equalWithin]
              split
              · rfl
              · rw [if_neg (by omega), if_neg (by simp), size, bne_self_eq_false,
                  if_neg Bool.false_ne_true]
                exact allFound_of_same unfolds .nil stores apart keys
                  (fun pair member _ _ _ unfolds stores =>
                    equalWithin_answers (keys pair member) unfolds stores fewer 0)
                  (fun pair member _ _ unfolds stores =>
                    sameKeys pair member unfolds stores fewer (by omega))
                  fun pair member _ _ unfolds stores =>
                    sameValues pair member unfolds stores fewer (by omega)

theorem limit_lt_equalityFuel {limit : Nat} (room : limit ≤ structureDepth) :
    limit < heap.equalityFuel := by
  unfold equalityFuel structureDepth at *
  omega

/-- Equal values look alike. -/
theorem alike_of_equal (plain : datum.Plain limit) (room : limit ≤ structureDepth)
    (unfolds : heap.Unfolds filing left datum) (also : heap.Unfolds other right another)
    (same : heap.equal left right = true) : datum.alike another = true := by
  obtain ⟨found, answer, alike⟩ :=
    equalWithin_answers plain unfolds also (limit_lt_equalityFuel room) 0
  unfold equal equalDuring at same
  rw [answer] at same
  exact alike same

/-- A value is equal to one that looks like it and whose keys can be found. -/
theorem equal_of_same (plain : datum.Plain structureDepth)
    (unfolds : heap.Unfolds filing left datum) (stores : heap.Stores right datum) :
    heap.equal left right = true := by
  unfold equal equalDuring
  rw [equalWithin_of_same plain unfolds stores (limit_lt_equalityFuel (Nat.le_refl _))
    (Nat.le_of_eq (Nat.zero_add _))]
  rfl

end

end Heap

end MiniScript
