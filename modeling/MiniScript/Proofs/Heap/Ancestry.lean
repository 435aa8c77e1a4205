import MiniScript.Library.Install
import MiniScript.Operator.Member

/-!
# The chain of ancestors

The parent of a map is under its key `__isa`, so every map starts a chain, which may
end or come back to where it was. A member is looked for in as many maps of the chain
as the limit lets it: the nearest one that holds the key is its owner. The operator
`isa` walks along the same chain on its own, and goes one link further than a lookup.
-/

namespace MiniScript

variable {σ : Type}

namespace Heap

/-- The map that a number of links leads to. -/
def ancestor? (heap : Heap) (map : MapRef) : Nat → Option MapRef
  | 0 => some map
  | links + 1 => (heap.ancestor? map links).bind heap.isaParent?

/-- None of the first `count` maps of the chain holds the key. -/
def Lacks (heap : Heap) (map : MapRef) (key : Value) (count : Nat) : Prop :=
  ∀ links < count, ∀ other, heap.ancestor? map links = some other → heap.get? other key = none

instance (heap : Heap) (map : MapRef) (key : Value) (count : Nat) :
    Decidable (heap.Lacks map key count) :=
  decidable_of_iff
    (∀ links < count, ∀ other ∈ heap.ancestor? map links, heap.get? other key = none) Iff.rfl

/-- `owner`, so many links away, is the first map of the chain that holds the key. -/
structure Owns (heap : Heap) (map : MapRef) (key : Value) (links : Nat) (owner : MapRef)
    (value : Value) : Prop where
  there : heap.ancestor? map links = some owner
  held : heap.get? owner key = some value
  first : heap.Lacks map key links

/-- The chain ends with a map that is at most `limit` links away. -/
def EndsWithin (heap : Heap) (map : MapRef) (limit : Nat) : Prop :=
  ∃ links ≤ limit, ∃ last, heap.ancestor? map links = some last ∧ heap.isaParent? last = none

/-- The map that is `limit` links away has a parent. -/
def GoesBeyond (heap : Heap) (map : MapRef) (limit : Nat) : Prop :=
  ∃ last parent, heap.ancestor? map limit = some last ∧ heap.isaParent? last = some parent

variable {heap : Heap} {map parent : MapRef} {key : Value} {limit : Nat}

theorem ancestor?_of_parent (isParent : heap.isaParent? map = some parent) (links : Nat) :
    heap.ancestor? map (links + 1) = heap.ancestor? parent links := by
  induction links with
  | zero => exact isParent
  | succ links ih => rw [ancestor?, ih, ancestor?]

theorem ancestor?_of_orphan (orphan : heap.isaParent? map = none) (links : Nat) :
    heap.ancestor? map (links + 1) = none := by
  induction links with
  | zero => exact orphan
  | succ links ih => rw [ancestor?, ih, Option.bind_none]

/-- Past the end of a chain there is nothing. -/
theorem ancestor?_of_le {near far : Nat} (le : near ≤ far)
    (ended : heap.ancestor? map near = none) :
    heap.ancestor? map far = none := by
  induction le with
  | refl => exact ended
  | step _ ih => rw [ancestor?, ih, Option.bind_none]

theorem goesBeyond_iff :
    heap.GoesBeyond map limit ↔ ∃ parent, heap.ancestor? map (limit + 1) = some parent := by
  constructor
  · rintro ⟨last, parent, there, isParent⟩
    exact ⟨parent, by rw [ancestor?, there, Option.bind_some, isParent]⟩
  · rintro ⟨parent, there⟩
    rw [ancestor?] at there
    obtain ⟨last, there, isParent⟩ := Option.bind_eq_some_iff.mp there
    exact ⟨last, parent, there, isParent⟩

/-- A chain either ends within the limit or goes beyond it. -/
theorem endsWithin_iff : heap.EndsWithin map limit ↔ heap.ancestor? map (limit + 1) = none := by
  constructor
  · rintro ⟨links, within, last, there, orphan⟩
    have ended : heap.ancestor? map (links + 1) = none := by
      rw [ancestor?, there, Option.bind_some, orphan]
    exact ancestor?_of_le (Nat.succ_le_succ within) ended
  · intro ended
    induction limit with
    | zero => exact ⟨0, Nat.le_refl 0, map, rfl, ended⟩
    | succ limit ih =>
        cases last : heap.ancestor? map (limit + 1) with
        | none =>
            obtain ⟨links, within, rest⟩ := ih last
            exact ⟨links, Nat.le_succ_of_le within, rest⟩
        | some last' =>
            rw [ancestor?, last, Option.bind_some] at ended
            exact ⟨limit + 1, Nat.le_refl _, last', last, ended⟩

/-! ## Lookups -/

theorem Lacks.zero : heap.Lacks map key 0 := fun _ less => absurd less (Nat.not_lt_zero _)

theorem Lacks.one (absent : heap.get? map key = none) : heap.Lacks map key 1 := by
  intro links less other there
  obtain rfl := Nat.lt_one_iff.mp less
  cases there
  exact absent

theorem Lacks.ofParent {count : Nat} (absent : heap.get? map key = none)
    (isParent : heap.isaParent? map = some parent) (lacks : heap.Lacks parent key count) :
    heap.Lacks map key (count + 1) := by
  intro links less other there
  cases links with
  | zero =>
      cases there
      exact absent
  | succ links =>
      rw [ancestor?_of_parent isParent] at there
      exact lacks links (Nat.lt_of_succ_lt_succ less) other there

theorem Lacks.ofOrphan (absent : heap.get? map key = none) (orphan : heap.isaParent? map = none)
    (count : Nat) : heap.Lacks map key count := by
  intro links less other there
  cases links with
  | zero =>
      cases there
      exact absent
  | succ links => rw [ancestor?_of_orphan orphan] at there; cases there

theorem Owns.le_of_lacks {links count : Nat} {owner : MapRef} {value : Value}
    (owns : heap.Owns map key links owner value) (lacks : heap.Lacks map key count) :
    count ≤ links := by
  refine Nat.le_of_not_lt fun less => ?_
  have absent := lacks links less owner owns.there
  rw [owns.held] at absent
  cases absent

/-- How a lookup that may follow `limit` links ends. -/
inductive Search (heap : Heap) (key : Value) (whole limit : Nat) (map : MapRef) :
    Except Fault (Option Member) → Prop
  | owned {links : Nat} {owner : MapRef} {value : Value} (within : links ≤ limit)
      (owns : heap.Owns map key links owner value) :
      Search heap key whole limit map (.ok (some ⟨value, some owner⟩))
  | ended (lacks : heap.Lacks map key (limit + 1)) (ends : heap.EndsWithin map limit) :
      Search heap key whole limit map (.ok none)
  | tooDeep (lacks : heap.Lacks map key (limit + 1)) (goesOn : heap.GoesBeyond map limit) :
      Search heap key whole limit map (.error (.isaChainTooDeep whole))

theorem Search.ofParent {whole : Nat} {result : Except Fault (Option Member)}
    (absent : heap.get? map key = none) (isParent : heap.isaParent? map = some parent)
    (search : heap.Search key whole limit parent result) :
    heap.Search key whole (limit + 1) map result := by
  cases search with
  | owned within owns =>
      refine .owned (Nat.succ_le_succ within) ⟨?_, owns.held, .ofParent absent isParent owns.first⟩
      rw [ancestor?_of_parent isParent, owns.there]
  | ended lacks ends =>
      refine .ended (.ofParent absent isParent lacks) ?_
      rw [endsWithin_iff, ancestor?_of_parent isParent]
      exact endsWithin_iff.mp ends
  | tooDeep lacks goesOn =>
      refine .tooDeep (.ofParent absent isParent lacks) ?_
      rw [goesBeyond_iff, ancestor?_of_parent isParent]
      exact goesBeyond_iff.mp goesOn

/-- A lookup ends in one of these ways. -/
theorem search_lookupInChain (heap : Heap) (key : Value) (whole limit : Nat) (map : MapRef) :
    heap.Search key whole limit map (heap.lookupInChain key whole limit map) := by
  -- The induction is on the number of links that are left, so a chain may come back to itself.
  induction limit generalizing map with
  | zero =>
      unfold lookupInChain
      split
      · rename_i value held
        exact .owned (Nat.le_refl 0) ⟨rfl, held, .zero⟩
      · rename_i absent
        split
        · rename_i orphan
          exact .ended (.one absent) ⟨0, Nat.le_refl 0, map, rfl, orphan⟩
        · rename_i parent isParent
          exact .tooDeep (.one absent) ⟨map, parent, rfl, isParent⟩
  | succ limit ih =>
      unfold lookupInChain
      split
      · rename_i value held
        exact .owned (Nat.zero_le _) ⟨rfl, held, .zero⟩
      · rename_i absent
        split
        · rename_i orphan
          exact .ended (.ofOrphan absent orphan _) ⟨0, Nat.zero_le _, map, rfl, orphan⟩
        · rename_i parent isParent
          exact .ofParent absent isParent (ih parent)

/-- No two of them are possible at once. -/
theorem Search.unique {whole : Nat} {result other : Except Fault (Option Member)}
    (one : heap.Search key whole limit map result) (two : heap.Search key whole limit map other) :
    result = other := by
  have apart (lacks : heap.Lacks map key (limit + 1)) {links : Nat} {owner : MapRef} {value : Value}
      (within : links ≤ limit) (owns : heap.Owns map key links owner value) : False :=
    absurd (owns.le_of_lacks lacks) (by omega)
  have exclusive (ends : heap.EndsWithin map limit) (goesOn : heap.GoesBeyond map limit) :
      False := by
    obtain ⟨_, there⟩ := goesBeyond_iff.mp goesOn
    rw [endsWithin_iff.mp ends] at there
    cases there
  cases one with
  | owned within owns =>
      cases two with
      | owned _ owns' =>
          obtain rfl := Nat.le_antisymm (owns.le_of_lacks owns'.first)
            (owns'.le_of_lacks owns.first)
          obtain rfl := Option.some.inj (owns.there.symm.trans owns'.there)
          obtain rfl := Option.some.inj (owns.held.symm.trans owns'.held)
          rfl
      | ended lacks => exact (apart lacks within owns).elim
      | tooDeep lacks => exact (apart lacks within owns).elim
  | ended lacks ends =>
      cases two with
      | owned within owns => exact (apart lacks within owns).elim
      | ended => rfl
      | tooDeep _ goesOn => exact (exclusive ends goesOn).elim
  | tooDeep lacks goesOn =>
      cases two with
      | owned within owns => exact (apart lacks within owns).elim
      | ended _ ends => exact (exclusive ends goesOn).elim
      | tooDeep => rfl

theorem lookupInChain_eq_iff {whole : Nat} {result : Except Fault (Option Member)} :
    heap.lookupInChain key whole limit map = result ↔ heap.Search key whole limit map result := by
  constructor
  · rintro rfl
    exact search_lookupInChain heap key whole limit map
  · exact (search_lookupInChain heap key whole limit map).unique

theorem lookupInChain_eq_some_iff {whole : Nat} {member : Member} :
    heap.lookupInChain key whole limit map = .ok (some member) ↔
      ∃ links ≤ limit, ∃ owner, member.owner = some owner ∧
        heap.Owns map key links owner member.value := by
  rw [lookupInChain_eq_iff]
  constructor
  · intro search
    cases search with
    | owned within owns => exact ⟨_, within, _, rfl, owns⟩
  · obtain ⟨value, owner⟩ := member
    rintro ⟨links, within, owner, rfl, owns⟩
    exact .owned within owns

theorem lookupInChain_eq_none_iff {whole : Nat} :
    heap.lookupInChain key whole limit map = .ok none ↔
      heap.Lacks map key (limit + 1) ∧ heap.EndsWithin map limit := by
  rw [lookupInChain_eq_iff]
  constructor
  · intro search
    cases search with
    | ended lacks ends => exact ⟨lacks, ends⟩
  · rintro ⟨lacks, ends⟩
    exact .ended lacks ends

theorem lookupInChain_eq_error_iff {whole : Nat} {fault : Fault} :
    heap.lookupInChain key whole limit map = .error fault ↔
      fault = .isaChainTooDeep whole ∧ heap.Lacks map key (limit + 1) ∧
        heap.GoesBeyond map limit := by
  rw [lookupInChain_eq_iff]
  constructor
  · intro search
    cases search with
    | tooDeep lacks goesOn => exact ⟨rfl, lacks, goesOn⟩
  · rintro ⟨rfl, lacks, goesOn⟩
    exact .tooDeep lacks goesOn

/-! ## The operator `isa` -/

/-- How a walk that may follow `limit` links beyond the parent ends. -/
inductive Walk (heap : Heap) (ancestor : MapRef) (whole limit : Nat) (map : MapRef) :
    Except Fault Bool → Prop
  | met {links : Nat} (within : links ≤ limit)
      (there : heap.ancestor? map (links + 1) = some ancestor) :
      Walk heap ancestor whole limit map (.ok true)
  | ended (unmet : ∀ links ≤ limit, heap.ancestor? map (links + 1) ≠ some ancestor)
      (ends : heap.EndsWithin map limit) : Walk heap ancestor whole limit map (.ok false)
  | tooDeep (unmet : ∀ links ≤ limit, heap.ancestor? map (links + 1) ≠ some ancestor)
      (goesOn : heap.GoesBeyond map limit) :
      Walk heap ancestor whole limit map (.error (.isaChainTooDeep whole))

theorem Walk.ofParent {ancestor : MapRef} {whole : Nat} {result : Except Fault Bool}
    (isParent : heap.isaParent? map = some parent) (other : parent ≠ ancestor)
    (walk : heap.Walk ancestor whole limit parent result) :
    heap.Walk ancestor whole (limit + 1) map result := by
  have unmetAbove (unmet : ∀ links ≤ limit, heap.ancestor? parent (links + 1) ≠ some ancestor) :
      ∀ links ≤ limit + 1, heap.ancestor? map (links + 1) ≠ some ancestor := by
    intro links within
    rw [ancestor?_of_parent isParent]
    cases links with
    | zero => exact fun same => other (Option.some.inj same)
    | succ links => exact unmet links (Nat.le_of_succ_le_succ within)
  cases walk with
  | met within there =>
      refine .met (Nat.succ_le_succ within) ?_
      rw [ancestor?_of_parent isParent, there]
  | ended unmet ends =>
      refine .ended (unmetAbove unmet) ?_
      rw [endsWithin_iff, ancestor?_of_parent isParent]
      exact endsWithin_iff.mp ends
  | tooDeep unmet goesOn =>
      refine .tooDeep (unmetAbove unmet) ?_
      rw [goesBeyond_iff, ancestor?_of_parent isParent]
      exact goesBeyond_iff.mp goesOn

/-- The walk of `isa` starts with the parent and ends in one of these ways. -/
theorem walk_reaches (heap : Heap) (ancestor : MapRef) (whole limit : Nat) (map : MapRef) :
    heap.Walk ancestor whole limit map
      (heap.reaches ancestor whole limit (heap.isaParent? map)) := by
  induction limit generalizing map with
  | zero =>
      cases isParent : heap.isaParent? map with
      | none =>
          refine .ended (fun links _ => ?_) ⟨0, Nat.le_refl 0, map, rfl, isParent⟩
          rw [ancestor?_of_orphan isParent]
          exact nofun
      | some parent =>
          unfold reaches
          split
          · rename_i same
            refine .met (Nat.le_refl 0) ?_
            rw [← same, ancestor?_of_parent isParent, ancestor?]
          · rename_i other
            refine .tooDeep (fun links within => ?_) ⟨map, parent, rfl, isParent⟩
            obtain rfl := Nat.le_zero.mp within
            rw [ancestor?_of_parent isParent]
            exact fun same => other (Option.some.inj same)
  | succ limit ih =>
      cases isParent : heap.isaParent? map with
      | none =>
          refine .ended (fun links _ => ?_) ⟨0, Nat.zero_le _, map, rfl, isParent⟩
          rw [ancestor?_of_orphan isParent]
          exact nofun
      | some parent =>
          unfold reaches
          split
          · rename_i same
            refine .met (Nat.zero_le _) ?_
            rw [← same, ancestor?_of_parent isParent, ancestor?]
          · rename_i other
            exact .ofParent isParent other (ih parent)

theorem reaches_eq_true_iff {ancestor : MapRef} {whole : Nat} :
    heap.reaches ancestor whole limit (heap.isaParent? map) = .ok true ↔
      ∃ links ≤ limit, heap.ancestor? map (links + 1) = some ancestor := by
  have walk := heap.walk_reaches ancestor whole limit map
  generalize heap.reaches ancestor whole limit (heap.isaParent? map) = result at walk
  cases walk with
  | met within there => exact ⟨fun _ => ⟨_, within, there⟩, fun _ => rfl⟩
  | ended unmet =>
      refine ⟨nofun, ?_⟩
      rintro ⟨links, within, there⟩
      exact absurd there (unmet links within)
  | tooDeep unmet =>
      refine ⟨nofun, ?_⟩
      rintro ⟨links, within, there⟩
      exact absurd there (unmet links within)

/-- Where the ancestor is not on the chain, the walk fails if the chain goes beyond the limit. -/
theorem reaches_eq_error_iff {ancestor : MapRef} {whole : Nat} {fault : Fault}
    (apart : ∀ links, heap.ancestor? map links ≠ some ancestor) :
    heap.reaches ancestor whole limit (heap.isaParent? map) = .error fault ↔
      fault = .isaChainTooDeep whole ∧ heap.GoesBeyond map limit := by
  have walk := heap.walk_reaches ancestor whole limit map
  generalize heap.reaches ancestor whole limit (heap.isaParent? map) = result at walk
  cases walk with
  | met _ there => exact absurd there (apart _)
  | ended _ ends =>
      refine ⟨nofun, fun beyond => ?_⟩
      obtain ⟨_, there⟩ := goesBeyond_iff.mp beyond.2
      rw [endsWithin_iff.mp ends] at there
      cases there
  | tooDeep _ goesOn =>
      constructor
      · rintro ⟨⟩
        exact ⟨rfl, goesOn⟩
      · rintro ⟨rfl, _⟩
        rfl

end Heap

namespace World

/-- A member of a map that is held by none of the maps of its chain is a method for all maps. -/
theorem member_map (world : World σ) (map : MapRef) (key : Value) :
    world.member (.map map) key =
      match world.heap.lookupInChain key world.limits.maxIsaDepth world.limits.maxIsaDepth map with
      | .error fault => .error fault
      | .ok (some found) => .ok found
      | .ok none => world.coreMember .map key := by
  unfold member
  dsimp only
  cases world.heap.lookupInChain key world.limits.maxIsaDepth world.limits.maxIsaDepth map with
  | error fault => rfl
  | ok found => cases found <;> rfl

theorem member_map_eq_ok_iff {world : World σ} {map : MapRef} {key : Value} {member : Member} :
    world.member (.map map) key = .ok member ↔
      world.heap.lookupInChain key world.limits.maxIsaDepth world.limits.maxIsaDepth map =
          .ok (some member) ∨
        world.heap.lookupInChain key world.limits.maxIsaDepth world.limits.maxIsaDepth map =
          .ok none ∧ member.owner = none ∧
            world.heap.get? world.core.map key = some member.value := by
  rw [member_map]
  cases world.heap.lookupInChain key world.limits.maxIsaDepth world.limits.maxIsaDepth map with
  | error fault => simp
  | ok found =>
      cases found with
      | some found => simp
      | none =>
          obtain ⟨value, owner⟩ := member
          simp only [coreMember, CoreTables.table?, Option.bind_some]
          cases world.heap.get? world.core.map key <;> simp [and_comm, eq_comm]

theorem member_map_eq_error_iff {world : World σ} {map : MapRef} {key : Value} {fault : Fault} :
    world.member (.map map) key = .error fault ↔
      world.heap.lookupInChain key world.limits.maxIsaDepth world.limits.maxIsaDepth map =
          .error fault ∨
        world.heap.lookupInChain key world.limits.maxIsaDepth world.limits.maxIsaDepth map =
          .ok none ∧ world.heap.get? world.core.map key = none ∧
            fault = .keyNotFound (world.heap.display key) := by
  rw [member_map]
  cases world.heap.lookupInChain key world.limits.maxIsaDepth world.limits.maxIsaDepth map with
  | error fault => simp
  | ok found =>
      cases found with
      | some found => simp
      | none =>
          simp only [coreMember, CoreTables.table?, Option.bind_some]
          cases world.heap.get? world.core.map key <;> simp [eq_comm]

/-- A lookup finds the nearest map that holds the key, as far as the limit allows. A member of a
map is what it finds, or else the method for all maps. -/
theorem lookup_finds_nearest_owner (world : World σ) (map : MapRef) (key : Value) :
    let limit := world.limits.maxIsaDepth
    let found := world.heap.lookupInChain key limit limit map
    (∀ member, found = .ok (some member) ↔
      ∃ links ≤ limit, ∃ owner, member.owner = some owner ∧
        world.heap.Owns map key links owner member.value) ∧
    (found = .ok none ↔ world.heap.Lacks map key (limit + 1) ∧ world.heap.EndsWithin map limit) ∧
    (∀ fault, found = .error fault ↔
      fault = .isaChainTooDeep limit ∧ world.heap.Lacks map key (limit + 1) ∧
        world.heap.GoesBeyond map limit) ∧
    (∀ member, world.member (.map map) key = .ok member ↔
      found = .ok (some member) ∨
        found = .ok none ∧ member.owner = none ∧
          world.heap.get? world.core.map key = some member.value) ∧
    (∀ fault, world.member (.map map) key = .error fault ↔
      found = .error fault ∨
        found = .ok none ∧ world.heap.get? world.core.map key = none ∧
          fault = .keyNotFound (world.heap.display key)) :=
  ⟨fun _ => Heap.lookupInChain_eq_some_iff, Heap.lookupInChain_eq_none_iff,
    fun _ => Heap.lookupInChain_eq_error_iff, fun _ => member_map_eq_ok_iff,
    fun _ => member_map_eq_error_iff⟩

theorem isa_map {world : World σ} {map proto : MapRef} (ordinary : proto ≠ world.core.map) :
    world.isa (.map map) (.map proto) =
      world.heap.reaches proto world.limits.maxIsaDepth world.limits.maxIsaDepth
        (world.heap.isaParent? map) := by
  have other : world.core.table? (Value.map map).kind ≠ some proto :=
    fun same => ordinary (Option.some.inj same).symm
  rw [isa, if_neg other]

/-- A map that `isa` answers true for is at most one link further away than a lookup can go, and at
that distance the lookup fails. Where neither has anything to find they fail on the same chains. -/
theorem isa_goes_one_link_further {world : World σ} {map proto : MapRef}
    (ordinary : proto ≠ world.core.map) (key : Value) :
    let limit := world.limits.maxIsaDepth
    let found := world.heap.lookupInChain key limit limit map
    (world.isa (.map map) (.map proto) = .ok true → ∀ links value,
      world.heap.Owns map key links proto value →
        (links ≤ limit ∧ found = .ok (some ⟨value, some proto⟩)) ∨
          (links = limit + 1 ∧ found = .error (.isaChainTooDeep limit))) ∧
    ((∀ links, world.heap.ancestor? map links ≠ some proto) →
      (∀ count, world.heap.Lacks map key count) →
        ∀ fault, world.isa (.map map) (.map proto) = .error fault ↔ found = .error fault) := by
  intro limit found
  rw [isa_map ordinary]
  constructor
  · intro met links value owns
    obtain ⟨place, within, there⟩ := Heap.reaches_eq_true_iff.mp met
    have near : links ≤ place + 1 := by
      refine Nat.le_of_not_lt fun less => ?_
      have absent := owns.first _ less proto there
      rw [owns.held] at absent
      cases absent
    rcases Nat.lt_or_ge limit links with beyond | inside
    · obtain rfl : links = limit + 1 := by omega
      exact .inr ⟨rfl, Heap.lookupInChain_eq_error_iff.mpr
        ⟨rfl, owns.first, Heap.goesBeyond_iff.mpr ⟨proto, owns.there⟩⟩⟩
    · exact .inl ⟨inside, Heap.lookupInChain_eq_some_iff.mpr ⟨links, inside, proto, rfl, owns⟩⟩
  · intro apart lacks fault
    rw [Heap.reaches_eq_error_iff apart, Heap.lookupInChain_eq_error_iff]
    exact and_congr_right fun _ => (and_iff_right (lacks _)).symm

/-- A world with a map that has an entry `k`, and a line of its descendants. -/
def withDescendants (count : Nat) : World Unit :=
  (World.initial {} ()).modifyHeap fun heap =>
    let child (place : Nat) : MapObject := .ofNames [(isaName, .map ⟨heap.maps.size + place⟩)]
    { heap with
      maps := heap.maps ++ MapObject.ofNames [("k", .number 1.0)] :: (List.range count).map child }

theorem lookup_reaches_sixteen_links :
    let world := withDescendants 16
    world.isa (.map ⟨22⟩) (.map ⟨6⟩) = .ok true ∧
      world.heap.Owns ⟨22⟩ (.text "k") 16 ⟨6⟩ (.number 1.0) ∧
      world.heap.lookupInChain (.text "k") 16 16 ⟨22⟩ =
        .ok (some ⟨.number 1.0, some ⟨6⟩⟩) := by
  intro world
  have ordinary : (⟨6⟩ : MapRef) ≠ world.core.map := by decide
  have met : world.isa (.map ⟨22⟩) (.map ⟨6⟩) = .ok true :=
    (isa_map ordinary).trans (Heap.reaches_eq_true_iff.mpr ⟨15, by decide, by decide +kernel⟩)
  have held : world.heap.get? ⟨6⟩ (.text "k") = some (.number 1.0) := rfl
  have owns : world.heap.Owns ⟨22⟩ (.text "k") 16 ⟨6⟩ (.number 1.0) :=
    ⟨by decide +kernel, held, by decide +kernel⟩
  obtain ⟨_, found⟩ | ⟨⟨⟩, _⟩ := (isa_goes_one_link_further ordinary (.text "k")).1 met _ _ owns
  exact ⟨met, owns, found⟩

/-- With one more link `isa` still answers true, but the entry is not found. -/
theorem lookup_misses_seventeen_links :
    let world := withDescendants 17
    (⟨6⟩ : MapRef) ≠ world.core.map ∧ world.isa (.map ⟨23⟩) (.map ⟨6⟩) = .ok true ∧
      world.heap.Owns ⟨23⟩ (.text "k") 17 ⟨6⟩ (.number 1.0) ∧
      world.heap.lookupInChain (.text "k") 16 16 ⟨23⟩ = .error (.isaChainTooDeep 16) := by
  intro world
  have ordinary : (⟨6⟩ : MapRef) ≠ world.core.map := by decide
  have held : world.heap.get? ⟨6⟩ (.text "k") = some (.number 1.0) := rfl
  have owns : world.heap.Owns ⟨23⟩ (.text "k") 17 ⟨6⟩ (.number 1.0) :=
    ⟨by decide +kernel, held, by decide +kernel⟩
  refine ⟨ordinary, ?_, owns, ?_⟩
  · exact (isa_map ordinary).trans (Heap.reaches_eq_true_iff.mpr ⟨16, by decide, by decide +kernel⟩)
  · exact Heap.lookupInChain_eq_error_iff.mpr
      ⟨rfl, owns.first, Heap.goesBeyond_iff.mpr ⟨⟨6⟩, owns.there⟩⟩

end World

end MiniScript
