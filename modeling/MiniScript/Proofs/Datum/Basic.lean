import Mathlib.Data.List.Forall2
import MiniScript.Heap.Map
import MiniScript.Heap.Render
import MiniScript.Proofs.Number.Integer

/-!
# Values seen as data

A datum is what a value without functions looks like from outside, wherever in the
heap its lists and maps stand. A value shows a datum if the heap unfolds it so; then
its text is that of the datum, as long as not too many containers stand inside each
other.
-/

namespace MiniScript

/-! Lists whose members are related one by one. -/

section

variable {α β γ δ : Type}

/-- What relates the members of two lists can be replaced for each member of the second. -/
theorem forall₂_imp_of_mem {first second : α → β → Prop} {left : List α}
    {right : List β} (related : List.Forall₂ first left right)
    (each : ∀ item ∈ right, ∀ other, first other item → second other item) :
    List.Forall₂ second left right := by
  induction related with
  | nil => exact .nil
  | cons head _ ih =>
      rw [List.forall_mem_cons] at each
      exact .cons (each.1 _ head) (ih each.2)

theorem exists_mem_of_forall₂ {relation : α → β → Prop} {lefts : List α}
    {rights : List β} (related : List.Forall₂ relation lefts rights) {item : α}
    (member : item ∈ lefts) : ∃ other ∈ rights, relation item other := by
  induction related with
  | nil => cases member
  | cons head _ ih =>
      rcases List.mem_cons.mp member with rfl | member
      · exact ⟨_, List.mem_cons_self, head⟩
      · obtain ⟨other, found, related⟩ := ih member
        exact ⟨other, List.mem_cons_of_mem _ found, related⟩

theorem forall₂_of_map_eq {left : List α} {right : List β} {f : α → γ} {g : β → γ}
    (same : left.map f = right.map g) :
    List.Forall₂ (fun one another => f one = g another) left right := by
  rwa [← List.forall₂_eq_eq_eq, List.forall₂_map_left_iff, List.forall₂_map_right_iff] at same

theorem map_eq_map_of_forall₂ {relation : α → β → Prop} {left : List α}
    {right : List β} {first : α → γ} {second : β → γ} (related : List.Forall₂ relation left right)
    (each : ∀ item ∈ right, ∀ other, relation other item → first other = second item) :
    left.map first = right.map second := by
  rw [← List.forall₂_eq_eq_eq, List.forall₂_map_left_iff, List.forall₂_map_right_iff]
  exact forall₂_imp_of_mem related each

theorem map_eq_map_of_both {first : α → γ → Prop} {second : β → γ → Prop}
    {left : List α} {right : List β} {items : List γ} {f : α → δ} {g : β → δ}
    (related : List.Forall₂ first left items) (also : List.Forall₂ second right items)
    (each : ∀ item ∈ items, ∀ one another, first one item → second another item →
      f one = g another) : left.map f = right.map g := by
  induction related generalizing right with
  | nil =>
      cases also
      rfl
  | cons head _ ih =>
      cases also with
      | cons another also =>
          rw [List.forall_mem_cons] at each
          rw [List.map_cons, List.map_cons, each.1 _ _ head another, ih also each.2]

theorem eq_of_forall₂ {first second : α → β → Prop} {left : List α}
    {right others : List β} (related : List.Forall₂ first left right)
    (also : List.Forall₂ second left others)
    (each : ∀ item ∈ right, ∀ other another, first other item → second other another →
      item = another) : right = others := by
  induction related generalizing others with
  | nil =>
      cases also
      rfl
  | cons head _ ih =>
      cases also with
      | cons another also =>
          rw [List.forall_mem_cons] at each
          rw [each.1 _ _ head another, ih also each.2]

end

/-- Data that a program can write down. -/
inductive Datum where
  | null
  | integer (value : Int)
  | text (value : String)
  | list (items : List Datum)
  | map (pairs : List (Datum × Datum))

namespace Datum

mutual

/-- The text of a datum. -/
def written : Datum → String
  | .null => "null"
  | .integer value => toString value
  | .text value => quoteText value
  | .list items => "[" ++ ", ".intercalate (writtenItems items) ++ "]"
  | .map pairs => "\x7b" ++ ", ".intercalate (writtenPairs pairs) ++ "\x7d"

def writtenItems : List Datum → List String
  | [] => []
  | item :: rest => item.written :: writtenItems rest

def writtenPairs : List (Datum × Datum) → List String
  | [] => []
  | (key, value) :: rest => (key.written ++ ": " ++ value.written) :: writtenPairs rest

end

def writtenPair (pair : Datum × Datum) : String :=
  pair.1.written ++ ": " ++ pair.2.written

@[simp] theorem writtenItems_eq (items : List Datum) : writtenItems items = items.map written := by
  induction items with
  | nil => rfl
  | cons item rest ih => rw [writtenItems, ih, List.map_cons]

@[simp] theorem writtenPairs_eq (pairs : List (Datum × Datum)) :
    writtenPairs pairs = pairs.map writtenPair := by
  induction pairs with
  | nil => rfl
  | cons pair rest ih => rw [writtenPairs, ih, List.map_cons, writtenPair]

mutual

/-- Lists are alike item by item, maps entry by entry in any order. -/
def alike : Datum → Datum → Bool
  | .null, .null => true
  | .integer value, .integer other => value == other
  | .text value, .text other => value == other
  | .list items, .list others => alikeItems items others
  | .map pairs, .map others => pairs.length == others.length && alikePairs pairs others
  | _, _ => false

def alikeItems : List Datum → List Datum → Bool
  | [], [] => true
  | item :: rest, other :: others => item.alike other && alikeItems rest others
  | _, _ => false

/-- Each of the pairs is alike to one of the others. -/
def alikePairs : List (Datum × Datum) → List (Datum × Datum) → Bool
  | [], _ => true
  | (key, value) :: rest, others =>
      others.any (fun other => key.alike other.1 && value.alike other.2) &&
        alikePairs rest others

end

/-- Small integers, texts of one line and maps without a key twice, with at most `limit` containers
inside each other. -/
inductive Plain : Nat → Datum → Prop where
  | null {limit : Nat} : Plain limit .null
  | integer {limit : Nat} {value : Int} (small : value.natAbs < 1000000000000000) :
      Plain limit (.integer value)
  | text {limit : Nat} {value : String} (line : '\n' ∉ value.toList) : Plain limit (.text value)
  | list {limit : Nat} {items : List Datum} (plain : ∀ item ∈ items, Plain limit item) :
      Plain (limit + 1) (.list items)
  | map {limit : Nat} {pairs : List (Datum × Datum)}
      (apart : pairs.Pairwise fun pair later => later.1.alike pair.1 = false)
      (keys : ∀ pair ∈ pairs, Plain limit pair.1) (values : ∀ pair ∈ pairs, Plain limit pair.2) :
      Plain (limit + 1) (.map pairs)

theorem alikeItems_iff {items others : List Datum} : alikeItems items others = true ↔
    List.Forall₂ (fun item other => item.alike other = true) items others := by
  induction items generalizing others with
  | nil => cases others <;> simp [alikeItems]
  | cons item rest ih => cases others <;> simp [alikeItems, ih]

theorem alikePairs_iff {pairs others : List (Datum × Datum)} : alikePairs pairs others = true ↔
    ∀ pair ∈ pairs, ∃ other ∈ others,
      pair.1.alike other.1 = true ∧ pair.2.alike other.2 = true := by
  induction pairs with
  | nil => simp [alikePairs]
  | cons pair rest ih =>
      obtain ⟨key, value⟩ := pair
      simp [alikePairs, ih]

theorem alike_refl {limit : Nat} {datum : Datum} (plain : datum.Plain limit) :
    datum.alike datum = true := by
  induction plain with
  | null => rfl
  | integer | text => simp [alike]
  | list _ ih =>
      rw [alike, alikeItems_iff]
      exact List.forall₂_same.mpr ih
  | map _ _ _ keys values =>
      rw [alike, Bool.and_eq_true, alikePairs_iff]
      refine ⟨beq_self_eq_true _, fun pair member => ?_⟩
      exact ⟨pair, member, keys pair member, values pair member⟩

end Datum

namespace Heap

mutual

/-- The heap unfolds the value to the datum, and all entries of maps on the way meet `filing`. -/
inductive Unfolds (heap : Heap) (filing : Entry → Prop) : Value → Datum → Prop where
  | null : Unfolds heap filing .null .null
  | integer {value : Float} {integer : Int} (known : Number.integer? value = some integer) :
      Unfolds heap filing (.number value) (.integer integer)
  | text (value : String) : Unfolds heap filing (.text value) (.text value)
  | list {ref : ListRef} {items : List Datum}
      (unfolds : List.Forall₂ (Unfolds heap filing) (heap.items ref).toList items) :
      Unfolds heap filing (.list ref) (.list items)
  | map {ref : MapRef} {pairs : List (Datum × Datum)}
      (unfolds : List.Forall₂ (UnfoldsEntry heap filing) (heap.entries ref) pairs) :
      Unfolds heap filing (.map ref) (.map pairs)

inductive UnfoldsEntry (heap : Heap) (filing : Entry → Prop) : Entry → Datum × Datum → Prop where
  | intro {entry : Entry} {pair : Datum × Datum} (filed : filing entry)
      (key : Unfolds heap filing entry.key pair.1)
      (value : Unfolds heap filing entry.value pair.2) : UnfoldsEntry heap filing entry pair

end

section

variable {heap : Heap} {filing : Entry → Prop} {entry : Entry} {pair : Datum × Datum}

theorem UnfoldsEntry.filed (unfolds : heap.UnfoldsEntry filing entry pair) : filing entry := by
  cases unfolds
  assumption

theorem UnfoldsEntry.key (unfolds : heap.UnfoldsEntry filing entry pair) :
    heap.Unfolds filing entry.key pair.1 := by
  cases unfolds
  assumption

theorem UnfoldsEntry.value (unfolds : heap.UnfoldsEntry filing entry pair) :
    heap.Unfolds filing entry.value pair.2 := by
  cases unfolds
  assumption

end

/-- The key stands under the shape that it has now. -/
def Filed (heap : Heap) (entry : Entry) : Prop :=
  entry.shape = heap.keyShape none entry.key

/-- The value looks like the datum. -/
abbrev Shows (heap : Heap) : Value → Datum → Prop :=
  heap.Unfolds fun _ => True

/-- The value looks like the datum, and its keys can be found by their shapes. -/
abbrev Stores (heap : Heap) : Value → Datum → Prop :=
  heap.Unfolds heap.Filed

end Heap

/-- The sign of an integer in front of its digits. -/
theorem Number.signed_toString (integer : Int) :
    signed (decide (integer < 0)) (toString integer.natAbs) = toString integer := by
  cases integer with
  | ofNat natural => rfl
  | negSucc natural =>
      rw [decide_eq_true (Int.negSucc_lt_zero natural), signed, if_pos rfl]
      rfl

namespace Heap

variable {heap : Heap} {filing other : Entry → Prop} {limit : Nat} {datum : Datum} {value : Value}

/-- A value looks like one datum only. -/
theorem Unfolds.unique (plain : datum.Plain limit) {another : Datum}
    (unfolds : heap.Unfolds filing value datum) (also : heap.Unfolds other value another) :
    datum = another := by
  induction plain generalizing value another with
  | null =>
      cases unfolds
      cases also
      rfl
  | integer =>
      cases unfolds with
      | integer known =>
          cases also with
          | integer found => rw [Option.some.inj (known.symm.trans found)]
  | text =>
      cases unfolds
      cases also
      rfl
  | list _ ih =>
      cases unfolds with
      | list unfolds =>
          cases also with
          | list also => rw [eq_of_forall₂ unfolds also fun item member _ _ => ih item member]
  | map _ _ _ keys values =>
      cases unfolds with
      | map unfolds =>
          cases also with
          | map also =>
              rw [eq_of_forall₂ unfolds also fun pair member entry another parts others => ?_]
              exact Prod.ext (keys pair member parts.key others.key)
                (values pair member parts.value others.value)

/-- The text of a value is that of the datum. -/
theorem renderWithin_of_unfolds (plain : datum.Plain limit)
    (unfolds : heap.Unfolds filing value datum) {fuel remaining : Nat} (enough : limit ≤ fuel)
    (room : limit ≤ remaining) : heap.renderWithin none fuel remaining value = datum.written := by
  induction plain generalizing value fuel remaining with
  | null =>
      cases unfolds
      simp only [renderWithin, Datum.written]
  | @integer _ integer small =>
      cases unfolds with
      | integer known =>
          simp only [renderWithin, Datum.written]
          rw [Number.display_of_integer? known small, Number.signed_toString]
  | text =>
      cases unfolds
      simp only [renderWithin, Datum.written]
  | @list limit items _ ih =>
      obtain ⟨fuel, rfl⟩ := Nat.exists_eq_add_of_le' (Nat.le_of_add_left_le enough)
      obtain ⟨remaining, rfl⟩ := Nat.exists_eq_add_of_le' (Nat.le_of_add_left_le room)
      cases unfolds with
      | list unfolds =>
          have same := map_eq_map_of_forall₂ unfolds fun item member value unfolds =>
            ih item member unfolds (Nat.le_of_succ_le_succ enough) (Nat.le_of_succ_le_succ room)
          simp only [renderWithin, Datum.written, same, Datum.writtenItems_eq, reduceCtorEq,
            if_false]
  | @map limit pairs _ _ _ keys values =>
      obtain ⟨fuel, rfl⟩ := Nat.exists_eq_add_of_le' (Nat.le_of_add_left_le enough)
      obtain ⟨remaining, rfl⟩ := Nat.exists_eq_add_of_le' (Nat.le_of_add_left_le room)
      have fewer := Nat.le_of_succ_le_succ enough
      have inside := Nat.le_of_succ_le_succ room
      cases unfolds with
      | @map ref _ unfolds =>
          have same : (heap.entries ref).map (fun entry =>
              heap.renderWithin none fuel remaining entry.key ++ ": " ++
                heap.renderWithin none fuel remaining entry.value) =
              pairs.map Datum.writtenPair := by
            refine map_eq_map_of_forall₂ unfolds fun pair member entry parts => ?_
            rw [keys pair member parts.key fewer inside,
              values pair member parts.value fewer inside]
            rfl
          simp only [renderWithin, Datum.written, same, Datum.writtenPairs_eq]

theorem repr_of_unfolds (plain : datum.Plain structureDepth)
    (unfolds : heap.Unfolds filing value datum) : heap.repr value = datum.written := by
  refine renderWithin_of_unfolds plain unfolds ?_ (Nat.le_refl _)
  unfold renderFuel structureDepth
  omega

end Heap

end MiniScript
