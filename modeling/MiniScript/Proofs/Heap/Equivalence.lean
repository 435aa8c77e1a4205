import Mathlib.Data.List.Perm.Basic
import MiniScript.Proofs.Heap.Comparison
import MiniScript.Proofs.Number.Order

/-!
# Equality as a relation

Where no map leads back to itself through a key and the keys of a map are unequal, equality is
symmetric and transitive at every depth, and equal values have the same shape. A map is equal to
another if its entries match those of the other in some order; this takes the same laws for
the keys, and inside of a key there are fewer maps than inside of the map that has it.
-/

namespace MiniScript

section

variable {α β : Type}

theorem forall₂_imp_of_both {first second : α → β → Prop} {left : List α} {right : List β}
    (related : List.Forall₂ first left right)
    (each : ∀ item ∈ left, ∀ other ∈ right, first item other → second item other) :
    List.Forall₂ second left right := by
  induction related with
  | nil => exact .nil
  | cons head _ ih =>
      refine .cons (each _ List.mem_cons_self _ List.mem_cons_self head) (ih ?_)
      exact fun item member other within =>
        each item (List.mem_cons_of_mem _ member) other (List.mem_cons_of_mem _ within)

theorem forall₂_trans {first second third : α → α → Prop} {left middle right : List α}
    (one : List.Forall₂ first left middle) (two : List.Forall₂ second middle right)
    (each : ∀ item ∈ left, ∀ between ∈ middle, ∀ other ∈ right,
      first item between → second between other → third item other) :
    List.Forall₂ third left right := by
  induction one generalizing right with
  | nil =>
      cases two
      exact .nil
  | cons head _ ih =>
      cases two with
      | cons another two =>
          refine .cons (each _ List.mem_cons_self _ List.mem_cons_self _ List.mem_cons_self head
            another) (ih two ?_)
          exact fun item member between within other inside =>
            each item (List.mem_cons_of_mem _ member) between (List.mem_cons_of_mem _ within)
              other (List.mem_cons_of_mem _ inside)

/-- If each item has a partner, no two have one in common and there are no more partners than
items, then the partners in some order are related to the items one by one. -/
theorem exists_perm_forall₂ {relation : α → β → Prop} {items : List α} {partners : List β}
    (size : items.length = partners.length)
    (each : ∀ item ∈ items, ∃ partner ∈ partners, relation item partner)
    (apart : items.Pairwise fun item other =>
      ∀ partner ∈ partners, relation item partner → ¬ relation other partner) :
    Relation.Comp (List.Forall₂ relation) List.Perm items partners := by
  induction items generalizing partners with
  | nil =>
      obtain rfl := List.eq_nil_of_length_eq_zero size.symm
      exact ⟨[], .nil, .refl []⟩
  | cons item items ih =>
      rw [List.forall_mem_cons] at each
      rw [List.pairwise_cons] at apart
      obtain ⟨⟨partner, member, related⟩, each⟩ := each
      obtain ⟨before, after, rfl⟩ := List.append_of_mem member
      have order : (partner :: (before ++ after)).Perm (before ++ partner :: after) :=
        List.perm_middle.symm
      have kept : ∀ other ∈ before ++ after, other ∈ before ++ partner :: after :=
        fun other inside =>
        order.subset (List.mem_cons_of_mem _ inside)
      obtain ⟨rest, matched, same⟩ := @ih (before ++ after)
        (Nat.succ.inj (size.trans order.length_eq.symm))
        (by
          intro other inside
          obtain ⟨found, within, holds⟩ := each other inside
          rcases List.mem_cons.mp (order.mem_iff.mpr within) with rfl | within
          · exact absurd holds (apart.1 other inside found member related)
          · exact ⟨found, within, holds⟩)
        (apart.2.imp fun disjoint other inside => disjoint other (kept other inside))
      exact ⟨partner :: rest, .cons related matched, (same.cons partner).trans order⟩

end

namespace Value

variable {left middle right : Value}

theorem sameScalar_symm (same : left.sameScalar right = true) : right.sameScalar left = true := by
  cases left <;> cases right <;> simp_all [sameScalar, Number.beq_symm]

theorem sameScalar_trans (first : left.sameScalar middle = true)
    (second : middle.sameScalar right = true) : left.sameScalar right = true := by
  cases left <;> cases middle <;> first | cases first | skip
  all_goals cases right <;> first | cases second | skip
  case number.number.number => exact Number.beq_trans first second
  all_goals simp_all [sameScalar]

theorem isContainer_of_sameScalar (same : left.sameScalar right = true) :
    left.isContainer = false ∧ right.isContainer = false := by
  cases left <;> cases right <;> simp_all [sameScalar, isContainer]

end Value

namespace Heap

variable {heap : Heap} {depth : Nat} {left right value : Value} {leftRef rightRef map : MapRef}

/-- Equality of two values that stand inside of `depth` containers. -/
def equalAt (heap : Heap) (depth : Nat) (left right : Value) : Bool :=
  (heap.equalWithin none heap.equalityFuel depth left right).getD false

/-- No map leads back to itself through one of its keys. -/
def Acyclic (heap : Heap) : Prop :=
  ∀ map entry, entry ∈ heap.entries map → ¬ heap.Includes entry.key (.map map)

theorem Acyclic.ends (acyclic : heap.Acyclic) (value : Value) : heap.KeysEnd value :=
  fun map entry _ member => acyclic map entry member

/-- Steps enough for every comparison, and fewer than a comparison is given. -/
theorem exists_answerAt (acyclic : heap.Acyclic) {fuel : Nat}
    (enough : (structureDepth + 1) * (heap.maps.size + 1) ≤ fuel) (depth : Nat)
    (left right : Value) : ∃ answer, heap.equalWithin none fuel depth left right = some answer := by
  obtain ⟨fuel, rfl⟩ : ∃ fewer, fuel = fewer + 1 :=
    Nat.exists_eq_add_of_le' (Nat.le_trans (Nat.mul_pos (by decide) (Nat.succ_pos _)) enough)
  rcases equalWithin_cases heap none depth left right with ⟨answer, here⟩ | ⟨above, _⟩
  · exact ⟨answer, here fuel⟩
  · have nests : heap.KeysNest heap.maps.size left := (acyclic.ends left).nest card_mapsInside_le
    have deep : (structureDepth + 1) * (heap.maps.size + 1) ≤ fuel + 1 + depth := by omega
    exact Option.isSome_iff_exists.mp (equalWithin_isSome above.le deep (.inl nests))

theorem equalWithin_eq (acyclic : heap.Acyclic) {fuel : Nat}
    (enough : (structureDepth + 1) * (heap.maps.size + 1) ≤ fuel) (depth : Nat) :
    heap.equalWithin none fuel depth = fun left right => some (heap.equalAt depth left right) := by
  funext left right
  have whole : (structureDepth + 1) * (heap.maps.size + 1) ≤ heap.equalityFuel :=
    Nat.mul_le_mul_right _ (Nat.le_succ _)
  obtain ⟨answer, here⟩ := exists_answerAt acyclic enough depth left right
  obtain ⟨final, there⟩ := exists_answerAt acyclic whole depth left right
  have one := sharper_equalWithin (Nat.le_max_left fuel heap.equalityFuel) depth _ _ _ here
  have two := sharper_equalWithin (Nat.le_max_right fuel heap.equalityFuel) depth _ _ _ there
  rw [here, Option.some.inj (one.symm.trans two), equalAt, there, Option.getD_some]

/-! ## What makes two values equal -/

theorem allEqual_iff {equal : Value → Value → Bool} {lefts rights : List Value}
    (size : lefts.length = rights.length) :
    allEqual (fun left right => some (equal left right)) lefts rights = some true ↔
      List.Forall₂ (fun left right => equal left right = true) lefts rights := by
  induction lefts generalizing rights with
  | nil =>
      obtain rfl := List.eq_nil_of_length_eq_zero size.symm
      exact ⟨fun _ => .nil, fun _ => rfl⟩
  | cons left lefts ih =>
      cases rights with
      | nil => cases size
      | cons right rights =>
          rw [allEqual, List.forall₂_cons, ← ih (Nat.succ.inj size)]
          cases same : equal left right with
          | false =>
              constructor
              · intro wrong
                cases wrong
              · rintro ⟨wrong, _⟩
                cases wrong
          | true => exact ⟨fun rest => ⟨rfl, rest⟩, fun both => both.2⟩

/-- The lookup of a key among the entries of a map has an answer. -/
theorem findEntry_eq (map : MapRef) (key : Value) :
    findEntry (heap.decideEqual none) key (heap.keyShape none key) (heap.entries map) =
      some (heap.entry? map key) := by
  obtain ⟨found, search, _⟩ :=
    @findEntry_answers (heap.decideEqual none) key (heap.keyShape none key) (heap.entries map)
      fun _ _ => rfl
  unfold entry?
  rw [search]
  rfl

/-- What is found is an entry with an equal key. -/
theorem entry?_sound {key : Value} {found : Entry} (search : heap.entry? map key = some found) :
    found ∈ heap.entries map ∧ heap.equal key found.key = true := by
  obtain ⟨hit, answer, sound⟩ :=
    @findEntry_answers (heap.decideEqual none) key (heap.keyShape none key) (heap.entries map)
      fun _ _ => rfl
  rw [findEntry_eq, search] at answer
  obtain ⟨member, same⟩ := sound found (Option.some.inj answer).symm
  exact ⟨member, Option.some.inj same⟩

theorem allFound_iff {equal : Value → Value → Bool} {entries : List Entry} :
    allFound (heap.decideEqual none) (fun left right => some (equal left right))
        (heap.keyShape none) (heap.entries map) entries = some true ↔
      ∀ entry ∈ entries, ∃ other, heap.entry? map entry.key = some other ∧
        equal entry.value other.value = true := by
  induction entries with
  | nil => exact ⟨fun _ => nofun, fun _ => rfl⟩
  | cons entry entries ih =>
      rw [allFound, findEntry_eq, List.forall_mem_cons, ← ih]
      cases search : heap.entry? map entry.key with
      | none => simp
      | some other =>
          cases same : equal entry.value other.value with
          | false => simp [same]
          | true => simp [same]

/-- Two entries with equal keys, and values that are equal inside of `depth` containers. -/
def Matches (heap : Heap) (depth : Nat) (entry other : Entry) : Prop :=
  heap.equal entry.key other.key = true ∧ heap.equalAt depth entry.value other.value = true

/-- How two values come to be equal inside of `depth` containers. -/
inductive Agrees (heap : Heap) (depth : Nat) : Value → Value → Prop
  | scalar {left right : Value} (same : left.sameScalar right = true) : Agrees heap depth left right
  | same {value : Value} (container : value.isContainer = true) : Agrees heap depth value value
  | lists {left right : ListRef} (above : depth < structureDepth)
      (items : List.Forall₂ (fun left right => heap.equalAt (depth + 1) left right = true)
        (heap.items left).toList (heap.items right).toList) :
      Agrees heap depth (.list left) (.list right)
  | maps {left right : MapRef} (above : depth < structureDepth)
      (entries : Relation.Comp (List.Forall₂ (heap.Matches (depth + 1))) List.Perm
        (heap.entries left) (heap.entries right)) :
      Agrees heap depth (.map left) (.map right)

theorem equalAt_scalar (scalar : left.isContainer = false) :
    heap.equalAt depth left right = left.sameScalar right := by
  obtain ⟨fuel, is⟩ := heap.exists_equalityFuel
  rw [equalAt, is, equalWithin_scalar heap none fuel depth scalar, Option.getD_some]

section

variable (acyclic : heap.Acyclic)
include acyclic

/-- One step of a comparison, after which there are still steps enough. -/
theorem equalAt_step (depth : Nat) (left right : Value) : ∃ fuel,
    (structureDepth + 1) * (heap.maps.size + 1) ≤ fuel ∧
    heap.equalWithin none (fuel + 1) depth left right = some (heap.equalAt depth left right) := by
  refine ⟨_, Nat.le_refl _, ?_⟩
  rw [equalWithin_eq acyclic (Nat.le_succ _)]

theorem equalAt_list_iff {left right : ListRef} :
    heap.equalAt depth (.list left) (.list right) = true ↔
      left = right ∨ depth < structureDepth ∧
        List.Forall₂ (fun left right => heap.equalAt (depth + 1) left right = true)
          (heap.items left).toList (heap.items right).toList := by
  obtain ⟨fuel, enough, here⟩ := equalAt_step acyclic depth (.list left) (.list right)
  rw [equalWithin] at here
  rw [← Option.some_inj, ← here]
  by_cases same : left = right
  · simp [same]
  rw [if_neg same]
  by_cases deep : structureDepth ≤ depth
  · simp [same, deep]
  rw [if_neg deep]
  by_cases size : (heap.items left).size = (heap.items right).size
  · rw [if_neg (by simpa using size), equalWithin_eq acyclic enough,
      allEqual_iff (by simpa using size)]
    simp [same, Nat.lt_of_not_le deep]
  · rw [if_pos (by simpa using size)]
    constructor
    · intro wrong
      cases wrong
    · rintro (wrong | ⟨_, items⟩)
      · exact absurd wrong same
      · exact absurd (by simpa using items.length_eq) size

theorem equalAt_map_iff {left right : MapRef} :
    heap.equalAt depth (.map left) (.map right) = true ↔
      left = right ∨ depth < structureDepth ∧
        (heap.entries left).length = (heap.entries right).length ∧
        ∀ entry ∈ heap.entries left, ∃ other, heap.entry? right entry.key = some other ∧
          heap.equalAt (depth + 1) entry.value other.value = true := by
  obtain ⟨fuel, enough, here⟩ := equalAt_step acyclic depth (.map left) (.map right)
  have keys : heap.equalWithin none fuel 0 = heap.decideEqual none := by
    rw [equalWithin_eq acyclic enough]
    rfl
  rw [equalWithin] at here
  rw [← Option.some_inj, ← here]
  by_cases same : left = right
  · simp [same]
  rw [if_neg same]
  by_cases deep : structureDepth ≤ depth
  · simp [same, deep]
  rw [if_neg deep, if_neg (by simp)]
  by_cases size : (heap.entries left).length = (heap.entries right).length
  · rw [if_neg (by simpa using size), keys, equalWithin_eq acyclic enough, allFound_iff]
    simp [same, size, Nat.lt_of_not_le deep]
  · rw [if_pos (by simpa using size)]
    simp [same, size]

end

/-! ## The laws -/

/-- No map leads back to itself through a key, the keys of a map are unequal, and a key that is
equal to one of them and has the same shape is found. -/
structure KeysProper (heap : Heap) : Prop where
  acyclic : heap.Acyclic
  apart : ∀ map, (heap.entries map).Pairwise fun entry later =>
    heap.equal entry.key later.key = false
  found : ∀ map key, ∀ entry ∈ heap.entries map, heap.equal key entry.key = true →
    heap.shape none key = heap.shape none entry.key → ∃ other, heap.entry? map key = some other

/-- What is to be shown of equality, for some of the values. -/
structure Laws (heap : Heap) (values : Value → Prop) : Prop where
  symm : ∀ depth left right, values left → values right →
    heap.equalAt depth left right = true → heap.equalAt depth right left = true
  trans : ∀ depth left middle right, values left → values middle → values right →
    heap.equalAt depth left middle = true → heap.equalAt depth middle right = true →
    heap.equalAt depth left right = true
  shape : ∀ depth remaining left right, values left → values right →
    heap.equalAt depth left right = true → remaining + depth ≤ structureDepth →
    heap.shapeWithin none remaining left = heap.shapeWithin none remaining right

section

variable (proper : heap.KeysProper) {values : Value → Prop} (laws : heap.Laws values)
include proper

/-- Of the entries of a map, only one has a key that is equal to another. -/
theorem KeysProper.unique {entry other : Entry} (member : entry ∈ heap.entries map)
    (within : other ∈ heap.entries map) (same : heap.equal entry.key other.key = true)
    (back : heap.equal other.key entry.key = true) : entry = other := by
  have apart : (heap.entries map).Pairwise fun entry later =>
      ¬ (heap.equal entry.key later.key = true ∧ heap.equal later.key entry.key = true) := by
    refine (proper.apart map).imp ?_
    rintro entry later differ ⟨same, _⟩
    exact Bool.false_ne_true (differ.symm.trans same)
  by_contra others
  have : Std.Symm fun entry later : Entry =>
      ¬ (heap.equal entry.key later.key = true ∧ heap.equal later.key entry.key = true) :=
    ⟨fun _ _ differ both => differ both.symm⟩
  exact apart.forall member within others ⟨same, back⟩

include laws

/-- The entries of equal maps match in some order. -/
theorem matched_of_found (left : ∀ entry ∈ heap.entries leftRef, values entry.key)
    (right : ∀ entry ∈ heap.entries rightRef, values entry.key)
    (size : (heap.entries leftRef).length = (heap.entries rightRef).length)
    (found : ∀ entry ∈ heap.entries leftRef, ∃ other,
      heap.entry? rightRef entry.key = some other ∧
        heap.equalAt depth entry.value other.value = true) :
    Relation.Comp (List.Forall₂ (heap.Matches depth)) List.Perm
      (heap.entries leftRef) (heap.entries rightRef) := by
  refine exists_perm_forall₂ size (fun entry member => ?_) ?_
  · obtain ⟨other, search, same⟩ := found entry member
    obtain ⟨within, keys⟩ := entry?_sound search
    exact ⟨other, within, keys, same⟩
  · refine (proper.apart leftRef).imp_of_mem ?_
    intro entry later member within differ partner inside one two
    have back := laws.symm 0 _ _ (left later within) (right partner inside) two.1
    have same := laws.trans 0 _ _ _ (left entry member) (right partner inside) (left later within)
      one.1 back
    exact Bool.false_ne_true (differ.symm.trans same)

/-- Where the entries match in some order, each key is found with its partner. -/
theorem found_of_matched (left : ∀ entry ∈ heap.entries leftRef, values entry.key)
    (right : ∀ entry ∈ heap.entries rightRef, values entry.key)
    (matched : Relation.Comp (List.Forall₂ (heap.Matches depth)) List.Perm
      (heap.entries leftRef) (heap.entries rightRef)) :
    ∀ entry ∈ heap.entries leftRef, ∃ other, heap.entry? rightRef entry.key = some other ∧
      heap.equalAt depth entry.value other.value = true := by
  intro entry member
  obtain ⟨order, related, perm⟩ := matched
  obtain ⟨partner, inside, keys, same⟩ := exists_mem_of_forall₂ related member
  have inside := perm.subset inside
  have shapes := laws.shape 0 structureDepth _ _ (left entry member) (right partner inside) keys
    (Nat.le_refl _)
  obtain ⟨hit, search⟩ := proper.found rightRef entry.key partner inside keys shapes
  obtain ⟨within, also⟩ := entry?_sound search
  have swap (other : Entry) (there : other ∈ heap.entries rightRef)
      (equal : heap.equal entry.key other.key = true) :
      heap.equal other.key entry.key = true :=
    laws.symm 0 _ _ (left entry member) (right other there) equal
  have join (one two : Entry) (here : one ∈ heap.entries rightRef)
      (there : two ∈ heap.entries rightRef) (first : heap.equal entry.key one.key = true)
      (second : heap.equal entry.key two.key = true) : heap.equal one.key two.key = true :=
    laws.trans 0 _ _ _ (right one here) (left entry member) (right two there)
      (swap one here first) second
  have only : hit = partner := proper.unique within inside
    (join hit partner within inside also keys) (join partner hit inside within keys also)
  exact ⟨hit, search, only ▸ same⟩

/-- Equality is agreement, if the laws hold for the keys of both values. -/
theorem equalAt_iff_agrees
    (keys : ∀ map, left = .map map ∨ right = .map map → ∀ entry ∈ heap.entries map,
      values entry.key) :
    heap.equalAt depth left right = true ↔ heap.Agrees depth left right := by
  constructor
  · intro same
    obtain ⟨fuel, enough, here⟩ := equalAt_step proper.acyclic depth left right
    rw [same] at here
    cases left with
    | list leftRef =>
        cases right with
        | list rightRef =>
            rcases (equalAt_list_iff proper.acyclic).mp same with rfl | ⟨above, items⟩
            · exact .same rfl
            · exact .lists above items
        | _ => cases here
    | map leftRef =>
        cases right with
        | map rightRef =>
            rcases (equalAt_map_iff proper.acyclic).mp same with rfl | ⟨above, size, found⟩
            · exact .same rfl
            · exact .maps above (matched_of_found proper laws (keys _ (.inl rfl))
                (keys _ (.inr rfl)) size found)
        | _ => cases here
    | _ =>
        rw [equalAt_scalar rfl] at same
        exact .scalar same
  · intro agrees
    cases agrees with
    | scalar same => rwa [equalAt_scalar (Value.isContainer_of_sameScalar same).1]
    | same container =>
        cases left with
        | list => exact (equalAt_list_iff proper.acyclic).mpr (.inl rfl)
        | map => exact (equalAt_map_iff proper.acyclic).mpr (.inl rfl)
        | _ => cases container
    | lists above items => exact (equalAt_list_iff proper.acyclic).mpr (.inr ⟨above, items⟩)
    | maps above entries =>
        obtain ⟨order, related, perm⟩ := id entries
        exact (equalAt_map_iff proper.acyclic).mpr (.inr ⟨above,
          related.length_eq.trans perm.length_eq,
          found_of_matched proper laws (keys _ (.inl rfl)) (keys _ (.inr rfl)) entries⟩)

end

/-! ## From keys to maps -/

/-- Values with fewer than `count` maps inside. -/
def Few (heap : Heap) (count : Nat) (value : Value) : Prop :=
  (heap.mapsInside value).card < count

theorem Few.part {count : Nat} {part : Value} (few : heap.Few count value)
    (isPart : heap.Part value part) : heap.Few count part := by
  refine Nat.lt_of_le_of_lt (Finset.card_le_card fun index inside => ?_) few
  obtain ⟨known, within⟩ := mem_mapsInside.mp inside
  exact mem_mapsInside.mpr ⟨known, .head isPart within⟩

theorem Few.key (acyclic : heap.Acyclic) {count : Nat} (few : heap.Few (count + 1) (.map map))
    {entry : Entry} (member : entry ∈ heap.entries map) : heap.Few count entry.key :=
  Nat.lt_of_lt_of_le (card_mapsInside_key_lt (acyclic.ends _) .refl member)
    (Nat.le_of_lt_succ few)

theorem shapeWithin_of_sameScalar (same : left.sameScalar right = true) (remaining : Nat) :
    heap.shapeWithin none remaining left = heap.shapeWithin none remaining right := by
  cases left <;> cases right <;> try cases same
  case null.null => rfl
  case number.number =>
    have parts := congrArg (Shape.mix (Shape.kindTag .number)) (Number.ofNumber_of_beq same)
    cases remaining <;> exact parts
  case text.text =>
    rw [beq_iff_eq.mp same]
  case function.function =>
    rw [beq_iff_eq.mp same]

section

variable (proper : heap.KeysProper) {count : Nat} (laws : heap.Laws (heap.Few count))
include proper laws

theorem agrees_of_few (first : heap.Few (count + 1) left) (second : heap.Few (count + 1) right) :
    heap.equalAt depth left right = true ↔ heap.Agrees depth left right := by
  refine equalAt_iff_agrees proper laws fun map is entry member => ?_
  rcases is with rfl | rfl
  · exact first.key proper.acyclic member
  · exact second.key proper.acyclic member

/-- By induction on the containers that may still be opened. -/
theorem symm_of_keys (depth : Nat) (left right : Value) (first : heap.Few (count + 1) left)
    (second : heap.Few (count + 1) right) (same : heap.equalAt depth left right = true) :
    heap.equalAt depth right left = true := by
  rw [agrees_of_few proper laws first second] at same
  rw [agrees_of_few proper laws second first]
  cases same with
  | scalar same => exact .scalar (Value.sameScalar_symm same)
  | same container => exact .same container
  | lists above items =>
      refine .lists above (forall₂_imp_of_both items.flip fun item member other within same => ?_)
      exact symm_of_keys (depth + 1) other item (first.part (.item within))
        (second.part (.item member)) same
  | maps above entries =>
      obtain ⟨order, related, perm⟩ := entries
      obtain ⟨order, related, perm⟩ := List.perm_comp_forall₂ perm.symm related.flip
      refine .maps above ⟨order, ?_, perm⟩
      refine forall₂_imp_of_both related fun entry member other within matched => ?_
      have within := perm.subset within
      exact ⟨laws.symm 0 _ _ (first.key proper.acyclic within) (second.key proper.acyclic member)
          matched.1,
        symm_of_keys (depth + 1) other.value entry.value (first.part (.value within))
          (second.part (.value member)) matched.2⟩
termination_by structureDepth - depth

theorem trans_of_keys (depth : Nat) (left middle right : Value)
    (first : heap.Few (count + 1) left) (second : heap.Few (count + 1) middle)
    (third : heap.Few (count + 1) right) (one : heap.equalAt depth left middle = true)
    (two : heap.equalAt depth middle right = true) : heap.equalAt depth left right = true := by
  rw [agrees_of_few proper laws first second] at one
  rw [agrees_of_few proper laws second third] at two
  rw [agrees_of_few proper laws first third]
  cases one with
  | same container => exact two
  | scalar same =>
      cases two with
      | same container => exact .scalar same
      | scalar again => exact .scalar (Value.sameScalar_trans same again)
      | lists => cases (Value.isContainer_of_sameScalar same).2
      | maps => cases (Value.isContainer_of_sameScalar same).2
  | lists above items =>
      cases two with
      | same container => exact .lists above items
      | scalar same => cases (Value.isContainer_of_sameScalar same).1
      | lists _ others =>
          refine .lists above (forall₂_trans items others ?_)
          intro item member between within other inside
          exact trans_of_keys (depth + 1) item between other (first.part (.item member))
            (second.part (.item within)) (third.part (.item inside))
  | maps above entries =>
      cases two with
      | same container => exact .maps above entries
      | scalar same => cases (Value.isContainer_of_sameScalar same).1
      | maps _ others =>
          obtain ⟨order, related, perm⟩ := entries
          obtain ⟨final, matched, again⟩ := others
          obtain ⟨later, matched, order⟩ := List.perm_comp_forall₂ perm matched
          refine .maps above ⟨later, forall₂_trans related matched ?_, order.trans again⟩
          intro entry member between within other inside here there
          have within := perm.subset within
          have inside := again.subset (order.subset inside)
          exact ⟨laws.trans 0 _ _ _ (first.key proper.acyclic member)
              (second.key proper.acyclic within) (third.key proper.acyclic inside) here.1 there.1,
            trans_of_keys (depth + 1) entry.value between.value other.value
              (first.part (.value member)) (second.part (.value within))
              (third.part (.value inside)) here.2 there.2⟩
termination_by structureDepth - depth

theorem shape_of_keys (depth remaining : Nat) (left right : Value)
    (first : heap.Few (count + 1) left) (second : heap.Few (count + 1) right)
    (same : heap.equalAt depth left right = true) (room : remaining + depth ≤ structureDepth) :
    heap.shapeWithin none remaining left = heap.shapeWithin none remaining right := by
  rw [agrees_of_few proper laws first second] at same
  cases same with
  | scalar same => exact shapeWithin_of_sameScalar same remaining
  | same container => rfl
  | @lists leftRef rightRef above items =>
      have size : (heap.items leftRef).size = (heap.items rightRef).size := by
        simpa using items.length_eq
      have empty : heap.shapeWithin none 0 (.list leftRef) =
          heap.shapeWithin none 0 (.list rightRef) :=
        congrArg (fun size => Shape.mix (Shape.kindTag .list) (Nat.toUInt64 size)) size
      cases remaining with
      | zero => exact empty
      | succ remaining =>
          have shapes : (heap.items leftRef).toList.map (heap.shapeWithin none remaining) =
              (heap.items rightRef).toList.map (heap.shapeWithin none remaining) := by
            rw [← List.forall₂_eq_eq_eq, List.forall₂_map_left_iff, List.forall₂_map_right_iff]
            refine forall₂_imp_of_both items fun item member other within same => ?_
            exact shape_of_keys (depth + 1) remaining item other (first.part (.item member))
              (second.part (.item within)) same (by omega)
          rw [shapeWithin_list, shapeWithin_list, shapes, empty]
  | @maps leftRef rightRef above entries =>
      obtain ⟨order, related, perm⟩ := entries
      have size : (heap.entries leftRef).length = (heap.entries rightRef).length :=
        related.length_eq.trans perm.length_eq
      have empty : heap.shapeWithin none 0 (.map leftRef) =
          heap.shapeWithin none 0 (.map rightRef) := by
        rw [shapeWithin_map_zero, shapeWithin_map_zero, size]
      cases remaining with
      | zero => exact empty
      | succ remaining =>
          have shapes : (heap.entries leftRef).map (heap.entryShape remaining) =
              order.map (heap.entryShape remaining) := by
            rw [← List.forall₂_eq_eq_eq, List.forall₂_map_left_iff, List.forall₂_map_right_iff]
            refine forall₂_imp_of_both related fun entry member other within matched => ?_
            have within := perm.subset within
            have keys := laws.shape 0 remaining _ _ (first.key proper.acyclic member)
              (second.key proper.acyclic within) matched.1 (by omega)
            have others := shape_of_keys (depth + 1) remaining entry.value other.value
              (first.part (.value member)) (second.part (.value within)) matched.2 (by omega)
            rw [entryShape, entryShape, keys, others]
          rw [shapeWithin_map, shapeWithin_map, shapes, empty,
            (perm.map (heap.entryShape remaining)).foldl_eq]
termination_by structureDepth - depth

end

theorem KeysProper.laws_of_few (proper : heap.KeysProper) (count : Nat) :
    heap.Laws (heap.Few count) := by
  induction count with
  | zero =>
      have nothing (value : Value) : ¬ heap.Few 0 value := Nat.not_lt_zero _
      exact ⟨fun _ _ _ few => absurd few (nothing _), fun _ _ _ _ few => absurd few (nothing _),
        fun _ _ _ _ few => absurd few (nothing _)⟩
  | succ count laws =>
      exact ⟨symm_of_keys proper laws, trans_of_keys proper laws, shape_of_keys proper laws⟩

theorem KeysProper.laws (proper : heap.KeysProper) : heap.Laws fun _ => True := by
  have all (value : Value) : heap.Few (heap.maps.size + 1) value :=
    Nat.lt_succ_of_le card_mapsInside_le
  obtain ⟨symm, trans, shape⟩ := proper.laws_of_few (heap.maps.size + 1)
  exact ⟨fun depth left right _ _ => symm depth left right (all _) (all _),
    fun depth left middle right _ _ _ => trans depth left middle right (all _) (all _) (all _),
    fun depth remaining left right _ _ => shape depth remaining left right (all _) (all _)⟩

/-! ## Keys that are found -/

theorem isContainer_of_equal (same : heap.equal left right = true) :
    left.isContainer = right.isContainer := by
  obtain ⟨fuel, is⟩ := heap.exists_equalityFuel
  rw [equal, equalDuring, is] at same
  cases left <;> cases right <;> first | rfl | cases same

theorem searchEntry_of_mem {equal : Value → Value → Bool} {key : Value} {shape : UInt64}
    {entries : List Entry} {entry : Entry} (member : entry ∈ entries)
    (same : equal key entry.key = true) (filed : key.isContainer = true → entry.shape = shape) :
    ∃ found, searchEntry (fun left right => some (equal left right)) key shape entries =
      some (some found) := by
  induction entries with
  | nil => cases member
  | cons other entries ih =>
      rw [searchEntry]
      rcases List.mem_cons.mp member with rfl | member
      · have meant : ¬ (key.isContainer && entry.shape != shape) = true := by
          rw [Bool.and_eq_true, bne_iff_ne]
          exact fun skips => skips.2 (filed skips.1)
        rw [if_neg meant, same]
        exact ⟨entry, rfl⟩
      · split
        · exact ih member
        · cases here : equal key other.key with
          | true => exact ⟨other, rfl⟩
          | false => exact ih member

/-- Keys are found as long as containers are filed under the shapes that they have. -/
theorem found_of_filed (filed : ∀ map, ∀ entry ∈ heap.entries map,
      entry.key.isContainer = true → entry.shape = heap.shape none entry.key) :
    ∀ map key, ∀ entry ∈ heap.entries map, heap.equal key entry.key = true →
      heap.shape none key = heap.shape none entry.key →
      ∃ other, heap.entry? map key = some other := by
  intro map key entry member same shapes
  have under : key.isContainer = true → entry.shape = heap.keyShape none key := by
    intro container
    have also := isContainer_of_equal same ▸ container
    rw [filed map entry member also, keyShape, if_pos container, shapes]
  unfold entry? findEntry
  split
  · rename_i only single
    rw [single] at member
    obtain rfl := List.mem_singleton.mp member
    have answer : heap.decideEqual none key entry.key = some true := congrArg some same
    rw [answer]
    exact ⟨entry, rfl⟩
  · obtain ⟨found, search⟩ := searchEntry_of_mem member same under
    have answer : searchEntry (heap.decideEqual none) key (heap.keyShape none key)
        (heap.entries map) = some (some found) := search
    rw [answer]
    exact ⟨found, rfl⟩

/-- Equality is symmetric and transitive at every depth, and equal values have the same shape
however deep it looks. Comparisons always end. -/
theorem equality_respects_keys (proper : heap.KeysProper) :
    (∀ depth left right, heap.equalWithin none heap.equalityFuel depth left right =
      some (heap.equalAt depth left right)) ∧
    (∀ depth left right, heap.equalAt depth left right = heap.equalAt depth right left) ∧
    (∀ depth left middle right, heap.equalAt depth left middle = true →
      heap.equalAt depth middle right = true → heap.equalAt depth left right = true) ∧
    ∀ left right, heap.equal left right = true → ∀ depth,
      heap.shapeWithin none (structureDepth - depth) left =
        heap.shapeWithin none (structureDepth - depth) right := by
  obtain ⟨symm, trans, shape⟩ := proper.laws
  refine ⟨fun depth left right => ?_, fun depth left right => ?_, fun depth left middle right =>
    trans depth left middle right trivial trivial trivial, fun left right same depth => ?_⟩
  · exact congrFun (congrFun (equalWithin_eq proper.acyclic
      (Nat.mul_le_mul_right _ (Nat.le_succ _)) depth) left) right
  · rw [Bool.eq_iff_iff]
    exact ⟨symm depth left right trivial trivial, symm depth right left trivial trivial⟩
  · exact shape 0 (structureDepth - depth) left right trivial trivial same (Nat.sub_le _ _)

/-- Two maps with the same entries, one of them under a list, in two orders. -/
def twoOrders : Heap :=
  let lists : Heap := { lists := #[#[.null], #[.null]] }
  let under (list : ListRef) : Entry := ⟨.list list, lists.shape none (.list list), .null⟩
  let named : Entry := ⟨.text "b", 0, .null⟩
  { lists with
    maps := #[{ entries := [under ⟨0⟩, named] }, { entries := [named, under ⟨1⟩] }] }

theorem twoOrders_keysProper : twoOrders.KeysProper := by
  have known (map : MapRef) (entry : Entry) (member : entry ∈ twoOrders.entries map) :
      entry.key = .text "b" ∨
        ∃ list, entry.key = .list list ∧ twoOrders.items list = #[.null] ∧
          entry.shape = twoOrders.shape none (.list list) := by
    rcases map with ⟨_ | _ | index⟩
    · rcases List.mem_pair.mp member with rfl | rfl
      · exact .inr ⟨⟨0⟩, rfl, rfl, by decide +kernel⟩
      · exact .inl rfl
    · rcases List.mem_pair.mp member with rfl | rfl
      · exact .inl rfl
      · exact .inr ⟨⟨1⟩, rfl, rfl, by decide +kernel⟩
    · have beyond : index + 1 + 1 < 2 := index_lt_of_entry member
      omega
  constructor
  · intro map entry member back
    rcases known map entry member with key | ⟨list, key, items, _⟩
    · rw [key] at back
      cases eq_of_includes_scalar rfl back
    · rw [key] at back
      rcases Relation.ReflTransGen.cases_head back with same | ⟨part, isPart, within⟩
      · cases same
      · cases isPart with
        | item member =>
            rw [items] at member
            rw [List.mem_singleton.mp member] at within
            cases eq_of_includes_scalar rfl within
  · rintro ⟨_ | _ | index⟩
    · decide +kernel
    · decide +kernel
    · exact List.Pairwise.nil
  · refine found_of_filed fun map entry member container => ?_
    rcases known map entry member with key | ⟨list, key, _, shape⟩
    · rw [key] at container
      cases container
    · rw [key, shape]

/-- The two maps are equal both ways round, and have the same shape. -/
theorem twoOrders_respects_keys :
    twoOrders.KeysProper ∧ twoOrders.equal (.map ⟨0⟩) (.map ⟨1⟩) = true ∧
    twoOrders.equal (.map ⟨1⟩) (.map ⟨0⟩) = true ∧
    twoOrders.shape none (.map ⟨0⟩) = twoOrders.shape none (.map ⟨1⟩) := by
  obtain ⟨_, symm, _, shapes⟩ := equality_respects_keys twoOrders_keysProper
  have same : twoOrders.equal (.map ⟨0⟩) (.map ⟨1⟩) = true := by decide +kernel
  exact ⟨twoOrders_keysProper, same, (symm 0 (.map ⟨1⟩) (.map ⟨0⟩)).trans same,
    shapes _ _ same 0⟩

end Heap

end MiniScript
