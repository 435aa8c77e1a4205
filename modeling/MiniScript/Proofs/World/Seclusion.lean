import MiniScript.Library.Install
import MiniScript.Proofs.Heap.Seclusion
import MiniScript.Proofs.World.Change

/-!
# Worlds that give no scope away

In a secluded world the heap is secluded, and so is what lies outside of it: the tables
of methods, the functions that are known everywhere, and the results that natives have
delivered. Members, results of operators and answers of built-in functions are then
admitted values. Natives, polls and interceptors of a host have to leave the world
secluded, and the variables of scopes as they were.
-/

namespace MiniScript

variable {σ : Type}

/-- Whatever the outcome is, unless it is a fault, something holds of it. -/
def Grants {α : Type} (holds : α → Prop) (outcome : Except Fault α) : Prop :=
  ∀ value, outcome = .ok value → holds value

namespace Grants

variable {α β : Type} {holds : α → Prop} {goal : β → Prop}

theorem ok {value : α} (known : holds value) : Grants holds (.ok value) := by
  rintro other ⟨⟩
  exact known

theorem error (fault : Fault) : Grants holds (.error fault) :=
  fun _ impossible => nomatch impossible

theorem bind {first : Except Fault α} {next : α → Except Fault β} (grants : Grants holds first)
    (rest : ∀ value, holds value → Grants goal (next value)) : Grants goal (first >>= next) := by
  cases first with
  | error fault => exact .error fault
  | ok value => exact rest value (grants value rfl)

/-- Nothing needs to be known of the first value. -/
theorem skip {first : Except Fault α} {next : α → Except Fault β}
    (rest : ∀ value, Grants goal (next value)) : Grants goal (first >>= next) := by
  cases first with
  | error fault => exact .error fault
  | ok value => exact rest value

end Grants

/-- A deferred result that will be an admitted value or an error, and for which no module runs. -/
structure Heap.AdmitsDeferred (heap : Heap) (deferred : Deferred Provider) : Prop where
  result : ∀ value, deferred.result = some (.ok value) → heap.Admits value
  source : ∀ load, deferred.source ≠ some (.module load)

namespace Heap.AdmitsDeferred

variable {heap after : Heap} {writer : Option ScopeRef} {deferred : Deferred Provider}
variable (admits : heap.AdmitsDeferred deferred)

include admits

theorem later (confines : Confines writer heap after) : after.AdmitsDeferred deferred :=
  ⟨fun value delivered => (admits.result value delivered).later confines, admits.source⟩

theorem resolve {delivery : Delivery}
    (delivered : ∀ value, delivery = .ok value → heap.Admits value) :
    heap.AdmitsDeferred (deferred.resolve delivery) := by
  unfold Deferred.resolve
  split
  · exact ⟨fun value same => delivered value (Option.some.inj same), nofun⟩
  · exact admits

theorem onReady (waiter : Nat) : heap.AdmitsDeferred (deferred.onReady waiter) := by
  unfold Deferred.onReady
  split
  · exact admits
  · split
    · exact ⟨admits.result, admits.source⟩
    · exact ⟨admits.result, admits.source⟩

theorem take : heap.AdmitsDeferred deferred.take :=
  ⟨nofun, admits.source⟩

theorem lend : heap.AdmitsDeferred deferred.lend :=
  ⟨admits.result, nofun⟩

theorem settle {answer : Option Delivery} {source : Provider}
    (delivered : ∀ value, answer = some (.ok value) → heap.Admits value)
    (plain : ∀ load, source ≠ .module load) :
    heap.AdmitsDeferred (deferred.settle answer source) := by
  cases answer with
  | some delivery => exact admits.resolve fun value same => delivered value (congrArg some same)
  | none =>
      unfold Deferred.settle
      dsimp only
      split
      · exact ⟨admits.result, fun load same => plain load (Option.some.inj same)⟩
      · exact admits

end Heap.AdmitsDeferred

namespace World

/-- Nothing in the world leads to the variables of a scope. -/
structure Secluded (world : World σ) : Prop where
  heap : world.heap.Secluded
  globals : world.heap.HasScope world.globals
  core : ∀ kind table, world.core.table? kind = some table → world.heap.Ordinary table
  intrinsics : ∀ entry ∈ world.intrinsics, world.heap.Admits entry.2
  deferreds : ∀ ref, world.heap.AdmitsDeferred (world.deferred ref)

/-- The later world is secluded, and of the scopes that were there at most `writer` has other
variables than before. -/
structure StaysSecluded (writer : Option ScopeRef) (before after : World σ) : Prop where
  secluded : after.Secluded
  confines : before.heap.Confines writer after.heap

section

variable {world before middle after : World σ} {writer : Option ScopeRef}

theorem StaysSecluded.trans (first : StaysSecluded writer before middle)
    (second : StaysSecluded writer middle after) : StaysSecluded writer before after :=
  ⟨second.secluded, first.confines.trans second.confines⟩

theorem StaysSecluded.widen (stays : StaysSecluded none before after) (writer : Option ScopeRef) :
    StaysSecluded writer before after :=
  ⟨stays.secluded, stays.confines.widen writer⟩

namespace Secluded

variable (secluded : world.Secluded)

include secluded

theorem refl : StaysSecluded writer world world :=
  ⟨secluded, .refl world.heap⟩

/-- Time, what is printed and the modules do not matter. -/
theorem records (clock suspensions : Nat) (output : Array String)
    (modules : List (String × Value)) (loading : List String) :
    StaysSecluded writer world { world with clock, suspensions, output, modules, loading } :=
  ⟨⟨secluded.heap, secluded.globals, secluded.core, secluded.intrinsics, secluded.deferreds⟩,
    .refl world.heap⟩

theorem modifyHeap {change : Heap → Heap}
    (confines : world.heap.Confines writer (change world.heap))
    (changed : (change world.heap).Secluded) :
    StaysSecluded writer world (world.modifyHeap change) where
  secluded :=
    { heap := changed
      globals := confines.hasScope secluded.globals
      core kind table is := (secluded.core kind table is).later confines
      intrinsics entry member := (secluded.intrinsics entry member).later confines
      deferreds ref := (secluded.deferreds ref).later confines }
  confines := confines

theorem modifyDeferred (ref : DeferredRef) {change : Deferred Provider → Deferred Provider}
    (keeps : world.heap.AdmitsDeferred (world.deferred ref) →
      world.heap.AdmitsDeferred (change (world.deferred ref))) :
    StaysSecluded writer world (world.modifyDeferred ref change) where
  secluded :=
    { secluded with
      deferreds other := by
        by_cases same : other = ref
        · subst same
          rcases Nat.lt_or_ge other.index world.deferreds.size with known | unknown
          · rw [deferred_modifyDeferred_self world other change known]
            exact keeps (secluded.deferreds other)
          · rw [deferred_of_size_le]
            · exact ⟨nofun, nofun⟩
            · exact Nat.le_trans (Nat.le_of_eq Array.size_modify) unknown
        · rw [deferred_modifyDeferred_of_ne world ref other change same]
          exact secluded.deferreds other }
  confines := .refl world.heap

theorem addDeferred {source : Option Provider} (plain : ∀ load, source ≠ some (.module load)) :
    StaysSecluded writer world (world.addDeferred source) where
  secluded :=
    { secluded with
      deferreds other := by
        rcases Nat.lt_or_ge other.index world.deferreds.size with known | unknown
        · rw [deferred_addDeferred_of_lt source known]
          exact secluded.deferreds other
        · rcases Nat.eq_or_lt_of_le unknown with same | beyond
          · have last : other = world.nextDeferred := by
              cases other
              exact congrArg _ same.symm
            rw [last, deferred_nextDeferred]
            exact ⟨nofun, plain⟩
          · rw [deferred_of_size_le]
            · exact ⟨nofun, nofun⟩
            · rw [World.addDeferred, Array.size_push]
              exact beyond }
  confines := .refl world.heap

theorem addTo {draft : Draft} (admitted : draft.Admitted world.heap) :
    StaysSecluded writer world (world.modifyHeap draft.addTo) :=
  secluded.modifyHeap (.addTo secluded.heap.layered draft) (admitted.addTo secluded.heap)

/-- Giving up a result gives up no other, because no module is running. -/
theorem cancelWithin (fuel : Nat) (ref : DeferredRef) :
    StaysSecluded writer world (World.cancelWithin fuel ref world) := by
  have cancelled : StaysSecluded writer world (world.modifyDeferred ref .cancel) :=
    secluded.modifyDeferred ref fun _ => ⟨nofun, nofun⟩
  cases fuel with
  | zero => exact cancelled
  | succ fuel =>
      unfold World.cancelWithin
      dsimp only
      split
      · rename_i load source
        exact absurd source ((secluded.deferreds ref).source load)
      · exact cancelled

theorem cancelWait (machine : Machine) :
    StaysSecluded writer world (world.cancelWait machine) := by
  unfold World.cancelWait
  split
  · exact secluded.cancelWithin _ _
  · exact secluded.refl

theorem release (machine : Machine) : StaysSecluded writer world (world.release machine) := by
  unfold World.release
  split
  · exact secluded.refl
  · split
    · exact secluded.cancelWithin _ _
    · exact secluded.refl

/-! ## Values that are found -/

theorem resolve? {scope : ScopeRef} {name : String} {value : Value}
    (found : world.resolve? scope name = some value) : world.heap.Admits value := by
  unfold World.resolve? at found
  split at found
  · rename_i here
    cases found
    exact secluded.heap.lookup? here
  · obtain ⟨front, rest, same, _⟩ := List.lookup_eq_some_iff.mp found
    refine secluded.intrinsics (name, value) ?_
    rw [same]
    exact List.mem_append_right front List.mem_cons_self

theorem coreMember (kind : Kind) (key : Value) :
    Grants (fun member => world.heap.Admits member.value) (world.coreMember kind key) := by
  unfold World.coreMember
  split
  · rename_i found
    obtain ⟨table, _, held⟩ := Option.bind_eq_some_iff.mp found
    exact .ok (secluded.heap.get? held)
  · exact .error _

theorem member (subject key : Value) :
    Grants (fun member => world.heap.Admits member.value) (world.member subject key) := by
  unfold World.member
  split
  · exact .error _
  · refine .bind (fun found same => same) fun found same => ?_
    split
    · exact .ok (secluded.heap.lookupInChain same)
    · exact secluded.coreMember .map key
  · rename_i list
    split
    · refine .skip fun position => .ok ?_
      cases found : (world.heap.items list)[position]? with
      | none => trivial
      | some item => exact secluded.heap.items list item (Array.mem_of_getElem? found)
    · exact secluded.coreMember .list _
  · split
    · exact .skip fun position => .ok trivial
    · exact secluded.coreMember .text _
  · exact secluded.coreMember _ _

end Secluded

end

end World

/-! ## Operators -/

namespace Operator

variable {heap : Heap}

theorem onNumbers?_admitted {op : BinaryOp} {left right : Float} {value : Value}
    (made : onNumbers? op left right = some value) : heap.Admits value := by
  cases op
  all_goals
    cases made
    try trivial

theorem onTexts?_admitted {op : BinaryOp} {left right : String} {value : Value}
    (made : onTexts? op left right = some value) : heap.Admits value := by
  cases op
  all_goals
    cases made
    try trivial

theorem mem_of_mem_scale {α : Type} {items : List α} {factor : Float} {limit : Nat} :
    Grants (fun scaled => ∀ item ∈ scaled, item ∈ items) (Sequence.scale items factor limit) := by
  unfold Sequence.scale
  split
  · exact .ok nofun
  · dsimp only
    split
    · exact .error _
    · refine .ok fun item member => ?_
      rcases List.mem_append.mp member with copied | part
      · obtain ⟨copy, among, inside⟩ := List.mem_flatten.mp copied
        exact List.eq_of_mem_replicate among ▸ inside
      · exact List.mem_of_mem_take part

/-- Sums and products are made of what is in the operands. -/
theorem combine_admitted (secluded : heap.Secluded) (limits : Limits) (op : BinaryOp)
    (left right : Value) : Grants (Draft.Admitted heap) (combine heap limits op left right) := by
  unfold combine
  dsimp only
  split
  · split
    · rename_i made
      exact .ok (onNumbers?_admitted made)
    · exact .error _
  · split
    · exact .error _
    · split
      · rename_i made
        exact .ok (onNumbers?_admitted made)
      · exact .error _
  · split
    · rename_i made
      exact .ok (onTexts?_admitted made)
    · exact .error _
  · split
    · exact .ok trivial
    · split
      · split
        · exact .skip fun chars => .ok trivial
        · exact .error _
      · exact .error _
  · split
    · exact .ok trivial
    · exact .error _
  · rename_i first second
    split
    · refine .skip fun _ => .ok fun item member => ?_
      rcases Array.mem_append.mp member with one | two
      · exact secluded.items first item one
      · exact secluded.items second item two
    · exact .error _
  · rename_i first factor
    split
    · refine mem_of_mem_scale.bind fun scaled among => .ok fun item member => ?_
      have inside := among item (List.mem_toArray.mp member)
      exact secluded.items first item (Array.mem_toList_iff.mp inside)
    · exact .error _
  · rename_i first second
    split
    · refine .ok (Heap.AdmitsEntry.withEntries (secluded.entries first) fun pair member => ?_)
      obtain ⟨entry, among, rfl⟩ := List.mem_map.mp member
      exact ⟨(secluded.entries second entry among).key, (secluded.entries second entry among).value⟩
    · exact .error _
  · exact .error _

theorem slice_admitted (secluded : heap.Secluded) (subject first last : Value) :
    Grants (Draft.Admitted heap) (slice heap subject first last) := by
  unfold slice
  split
  · rename_i list
    refine .skip fun bounds => .ok fun item member => secluded.items list item ?_
    obtain ⟨place, _, rfl⟩ := Array.mem_extract_iff_getElem.mp member
    exact Array.getElem_mem _
  · exact .skip fun bounds => .ok trivial
  · exact .error _

theorem instantiate_admitted {parent : Value} (admits : heap.Admits parent) :
    Grants (Draft.Admitted heap) (instantiate parent) := by
  cases parent with
  | map map => exact .ok (Heap.AdmitsEntry.ofNames (List.forall_mem_singleton.mpr admits))
  | _ => exact .error _

end Operator

theorem World.Secluded.binary {world : World σ} (secluded : world.Secluded) (op : BinaryOp)
    (left right : Value) : Grants (Draft.Admitted world.heap) (world.binary op left right) := by
  unfold World.binary
  split
  · exact .ok trivial
  · exact .ok trivial
  · cases world.isa left right with
    | error fault => exact .error fault
    | ok answer => exact .ok trivial
  · exact Operator.combine_admitted secluded.heap _ _ _ _

/-! ## Built-in functions -/

/-- An effect that changes no variables and gives no scope away. -/
structure Effect.Discreet (heap : Heap) (effect : Effect) : Prop where
  change : (effect.change heap).Secluded
  confines : heap.Confines none (effect.change heap)
  answer : effect.answer.Admitted (effect.change heap)

namespace Library

variable {heap : Heap} {call : Invocation}

theorem arg_admitted (admitted : ∀ arg ∈ call.args, heap.Admits arg) (index : Nat) :
    heap.Admits (call.arg index) := by
  unfold Invocation.arg
  cases found : call.args[index]? with
  | none => trivial
  | some arg => exact admitted arg (List.mem_of_getElem? found)

theorem counted_admitted (count : Nat) : (Draft.list (counted count)).Admitted heap := by
  intro item member
  obtain ⟨index, _, rfl⟩ := Array.mem_map.mp member
  trivial

theorem characters_admitted (text : String) : (Draft.list (characters text)).Admitted heap := by
  intro item member
  obtain ⟨char, _, rfl⟩ := List.mem_map.mp (List.mem_toArray.mp member)
  trivial

theorem splitText_admitted (delimiter text : String) :
    (Draft.list (splitText delimiter text)).Admitted heap := by
  unfold splitText
  split
  · exact characters_admitted text
  · intro item member
    obtain ⟨piece, _, rfl⟩ := List.mem_map.mp (List.mem_toArray.mp member)
    trivial

section

variable (secluded : heap.Secluded)

include secluded

theorem answer_discreet {draft : Draft} (admitted : draft.Admitted heap) :
    Grants (Effect.Discreet heap) (answer draft) :=
  .ok ⟨secluded, .refl heap, admitted⟩

theorem answerValue_discreet {value : Value} (admits : heap.Admits value) :
    Grants (Effect.Discreet heap) (answerValue value) :=
  answer_discreet secluded admits

theorem range_discreet (limits : Limits) : Grants (Effect.Discreet heap) (range limits call) := by
  refine .skip fun first => .skip fun last => .skip fun step => ?_
  split
  · exact .error _
  · dsimp only
    split
    all_goals
      split
      · exact .error _
      · refine answer_discreet secluded fun item member => ?_
        obtain ⟨index, _, rfl⟩ := Array.mem_map.mp member
        trivial

theorem values_discreet : Grants (Effect.Discreet heap) (values heap call) := by
  unfold values
  split
  · exact answer_discreet secluded (secluded.items _)
  · exact answer_discreet secluded (characters_admitted _)
  · refine answer_discreet secluded fun item member => ?_
    obtain ⟨entry, among, rfl⟩ := List.mem_map.mp (List.mem_toArray.mp member)
    exact (secluded.entries _ entry among).value
  · exact .error _

theorem indexes_discreet : Grants (Effect.Discreet heap) (indexes heap call) := by
  unfold indexes
  split
  · exact answer_discreet secluded (counted_admitted _)
  · exact answer_discreet secluded (counted_admitted _)
  · refine answer_discreet secluded fun item member => ?_
    obtain ⟨entry, among, rfl⟩ := List.mem_map.mp (List.mem_toArray.mp member)
    exact (secluded.entries _ entry among).key
  · exact .error _

theorem indexOf_discreet : Grants (Effect.Discreet heap) (indexOf heap call) := by
  unfold indexOf
  dsimp only
  split
  · split
    · exact answer_discreet secluded trivial
    · exact answerValue_discreet secluded trivial
  · split
    · exact answer_discreet secluded trivial
    · exact answerValue_discreet secluded trivial
  · split
    · rename_i entry found
      exact answerValue_discreet secluded
        (secluded.entries _ entry (List.mem_of_find?_eq_some found)).key
    · exact answerValue_discreet secluded trivial
  · exact .error _

end

/-- A change that leaves the heap secluded. -/
theorem change_discreet {change : Heap → Heap} {draft : Draft}
    (changed : (change heap).Secluded) (confines : heap.Confines none (change heap))
    (answered : draft.Admitted heap) :
    Grants (Effect.Discreet heap) (.ok { change, answer := draft }) :=
  .ok ⟨changed, confines, answered.later confines⟩

section

variable (secluded : heap.Secluded) (admitted : ∀ arg ∈ call.args, heap.Admits arg)

include secluded admitted

theorem push_discreet : Grants (Effect.Discreet heap) (push call) := by
  have receiver := arg_admitted admitted 0
  have value := arg_admitted admitted 1
  unfold push
  dsimp only
  split
  · rename_i list same
    refine change_discreet (secluded.modifyItems fun item member => ?_) (.ofMaps rfl rfl) receiver
    rcases Array.mem_push.mp member with old | rfl
    · exact secluded.items list item old
    · exact value
  · rename_i map same
    have ordinary : heap.Ordinary map := by rwa [same] at receiver
    have writable : heap.Writable none map := .ordinary ordinary
    exact change_discreet (secluded.insert writable value trivial) (.ofOrdinary ordinary _) receiver
  · exact .error _

theorem pop_discreet : Grants (Effect.Discreet heap) (pop heap call) := by
  have receiver := arg_admitted admitted 0
  unfold pop
  split
  · rename_i list same
    refine change_discreet (secluded.modifyItems fun item member => ?_) (.ofMaps rfl rfl) ?_
    · rw [← Array.mem_toList_iff, Array.toList_pop] at member
      exact secluded.items list item (Array.mem_toList_iff.mp (List.mem_of_mem_dropLast member))
    · cases last : (heap.items list).back? with
      | none => trivial
      | some item => exact secluded.items list item (Array.mem_of_back? last)
  · rename_i map same
    have ordinary : heap.Ordinary map := by rwa [same] at receiver
    split
    · exact answerValue_discreet secluded trivial
    · rename_i entry rest found
      refine change_discreet (secluded.remove ordinary entry.key) (.ofOrdinary ordinary _) ?_
      exact (secluded.entries map entry (found ▸ List.mem_cons_self)).key
  · exact .error _

theorem remove_discreet : Grants (Effect.Discreet heap) (remove heap call) := by
  have receiver := arg_admitted admitted 0
  unfold remove
  dsimp only
  split
  · rename_i map same
    have ordinary : heap.Ordinary map := by rwa [same] at receiver
    exact change_discreet (secluded.remove ordinary _) (.ofOrdinary ordinary _) trivial
  · rename_i list same
    split
    · refine change_discreet (secluded.modifyItems fun item member => ?_) (.ofMaps rfl rfl) trivial
      unfold Array.eraseIdxIfInBounds at member
      split at member
      · exact secluded.items list item (Array.mem_of_mem_eraseIdx member)
      · exact secluded.items list item member
    · exact .error _
  · exact answer_discreet secluded trivial
  · exact .error _

end

/-- A built-in function changes the list or map it is called with, and answers something that was
there already, or that is new. -/
theorem effect_discreet {world : World σ} (secluded : world.Secluded)
    (admitted : ∀ arg ∈ call.args, world.heap.Admits arg) (builtin : Builtin) :
    Grants (Effect.Discreet world.heap) (effect world builtin call) := by
  have answers {draft : Draft} (known : draft.Admitted world.heap) :
      Grants (Effect.Discreet world.heap) (answer draft) := answer_discreet secluded.heap known
  have first := arg_admitted admitted 0
  cases builtin with
  | range => exact range_discreet secluded.heap world.limits
  | push => exact push_discreet secluded.heap admitted
  | pop => exact pop_discreet secluded.heap admitted
  | remove => exact remove_discreet secluded.heap admitted
  | indexOf => exact indexOf_discreet secluded.heap
  | indexes => exact indexes_discreet secluded.heap
  | values => exact values_discreet secluded.heap
  | hasIndex | join =>
      simp only [effect, hasIndex, join]
      split
      all_goals first | exact .error _ | exact answers trivial
  | split =>
      simp only [effect, split]
      split
      · exact answers (splitText_admitted _ _)
      · exact .error _
  | abs | floor => exact .skip fun _ => answers trivial
  | wait => exact .skip fun seconds => .ok ⟨secluded.heap, .refl _, trivial⟩
  | print | yield => exact .ok ⟨secluded.heap, .refl _, trivial⟩
  | str =>
      refine answers ?_
      cases call.arg 0
      all_goals trivial
  | len =>
      refine answers ?_
      cases call.arg 0
      all_goals trivial
  | upper | lower =>
      refine answers ?_
      cases same : call.arg 0
      all_goals
        rw [same] at first
        exact first
  | time => exact answers trivial
  | listType => exact answers (secluded.core .list _ rfl)
  | textType => exact answers (secluded.core .text _ rfl)
  | numberType => exact answers (secluded.core .number _ rfl)
  | mapType => exact answers (secluded.core .map _ rfl)
  | functionType => exact answers (secluded.core .function _ rfl)

/-- What comes of an effect: the world, and the answer if it is there. -/
theorem apply_secluded {world : World σ} {effect : Effect} (secluded : world.Secluded)
    (discreet : effect.Discreet world.heap) :
    World.StaysSecluded none world (apply effect world).2 ∧
      ∀ value, (apply effect world).1.answer = .ready value →
        (apply effect world).2.heap.Admits value := by
  have changed : World.StaysSecluded none world (world.modifyHeap effect.change) :=
    secluded.modifyHeap discreet.confines discreet.change
  have answered (middle : World σ) (same : middle.heap = effect.change world.heap)
      (before : World.StaysSecluded none world middle) :
      World.StaysSecluded none world (middle.modifyHeap effect.answer.addTo) ∧
        (middle.modifyHeap effect.answer.addTo).heap.Admits
          (effect.answer.valueIn middle.heap) := by
    have admitted : effect.answer.Admitted middle.heap := same ▸ discreet.answer
    exact ⟨before.trans (before.secluded.addTo admitted), admitted.valueIn before.secluded.heap⟩
  have printed (line : String) :
      World.StaysSecluded none world ((world.modifyHeap effect.change).print line) :=
    changed.trans (changed.secluded.records _ _ _ _ _)
  have deferred (middle : World σ) (before : World.StaysSecluded none world middle)
      (deadline : Nat) :
      World.StaysSecluded none world (middle.addDeferred (some (.clock deadline))) :=
    before.trans (before.secluded.addDeferred nofun)
  unfold apply
  cases effect.line with
  | none =>
      cases effect.deadline with
      | some deadline => exact ⟨deferred _ changed deadline, nofun⟩
      | none =>
          obtain ⟨stays, admits⟩ := answered _ rfl changed
          exact ⟨stays, by rintro value ⟨⟩; exact admits⟩
  | some line =>
      cases effect.deadline with
      | some deadline => exact ⟨deferred _ (printed line) deadline, nofun⟩
      | none =>
          obtain ⟨stays, admits⟩ := answered _ rfl (printed line)
          exact ⟨stays, by rintro value ⟨⟩; exact admits⟩

end Library

/-! ## The world at the beginning -/

namespace Library

theorem functions_admitted (heap : Heap) : ∀ entry ∈ functions, heap.Admits entry.2 := by
  intro entry member
  obtain ⟨⟨⟨name, params, body⟩, index⟩, _, rfl⟩ := List.mem_map.mp member
  exact nofun

theorem methodTable_admitted (heap : Heap) (names : List String) :
    ∀ entry ∈ (methodTable names).entries, heap.AdmitsEntry entry := by
  refine Heap.AdmitsEntry.ofNames fun pair member => ?_
  obtain ⟨name, _, found⟩ := List.mem_filterMap.mp member
  obtain ⟨method, known, rfl⟩ := Option.map_eq_some_iff.mp found
  obtain ⟨front, rest, same, _⟩ := List.lookup_eq_some_iff.mp known
  refine functions_admitted heap (name, method) ?_
  rw [same]
  exact List.mem_append_right front List.mem_cons_self

theorem initialHeap_secluded : initialHeap.Secluded := by
  have only {scope : ScopeRef} (has : initialHeap.HasScope scope) : scope = ⟨0⟩ :=
    congrArg ScopeRef.mk (Nat.lt_one_iff.mp has)
  have plain : ∀ definition ∈ definitions, definition.body.isNative = true ∧
      ∀ param ∈ definition.params, param.default.isLiteral = true := by
    decide
  refine ⟨⟨fun scope has => ?_, fun scope other has also _ => ?_,
      fun scope parent has inside => ?_⟩,
    fun list item member => ?_, fun map entry member => ?_, fun definition member => ?_⟩
  · rw [only has]
    decide
  · rw [only has, only also]
  · rw [only has] at inside
    cases inside
  · exact absurd member (Array.not_mem_empty item)
  · unfold Heap.entries Heap.mapAt at member
    cases found : initialHeap.maps[map.index]? with
    | none =>
        rw [found] at member
        cases member
    | some object =>
        rw [found] at member
        have among : object ∈ [{}, methodTable listMethods, methodTable textMethods, {},
            methodTable mapMethods, {}] := List.mem_toArray.mp (Array.mem_of_getElem? found)
        simp only [List.mem_cons, List.not_mem_nil, or_false] at among
        rcases among with rfl | rfl | rfl | rfl | rfl | rfl
        · cases member
        · exact methodTable_admitted _ _ entry member
        · exact methodTable_admitted _ _ entry member
        · cases member
        · exact methodTable_admitted _ _ entry member
        · cases member
  · obtain ⟨native, literal⟩ := plain definition (List.mem_toArray.mp member)
    refine ⟨fun param among => .ofLiteral (literal param among), fun code script => ?_⟩
    rw [script] at native
    cases native

end Library

/-- A fresh world gives no scope away. -/
theorem World.initial_secluded (limits : Limits) (host : σ) :
    (World.initial limits host).Secluded := by
  refine ⟨Library.initialHeap_secluded, Nat.zero_lt_one, ?_, Library.functions_admitted _, ?_⟩
  · intro kind table is
    have place : ∃ index, 0 < index ∧ index < 6 ∧ table = ⟨index⟩ := by
      cases kind with
      | null => cases is
      | list => exact ⟨1, by decide, by decide, (Option.some.inj is).symm⟩
      | text => exact ⟨2, by decide, by decide, (Option.some.inj is).symm⟩
      | number => exact ⟨3, by decide, by decide, (Option.some.inj is).symm⟩
      | map => exact ⟨4, by decide, by decide, (Option.some.inj is).symm⟩
      | function => exact ⟨5, by decide, by decide, (Option.some.inj is).symm⟩
    obtain ⟨index, positive, known, rfl⟩ := place
    refine ⟨known, fun scope has same => ?_⟩
    rw [show scope = ⟨0⟩ from congrArg ScopeRef.mk (Nat.lt_one_iff.mp has)] at same
    exact absurd (congrArg MapRef.index same) (Nat.ne_of_lt positive)
  · exact fun ref => ⟨nofun, nofun⟩

/-! ## Hosts -/

/-- A native that neither writes to the variables of a scope nor gives them away, neither in its
answer nor in what it leaves in the world. -/
def Host.CallsDiscreetly (host : Host σ) (id : Nat) : Prop :=
  ∀ (call : Invocation) (world : World σ), world.Secluded →
    (∀ arg ∈ call.args, world.heap.Admits arg) → world.heap.HasScope call.scope →
    world.StaysSecluded none (host.call id call world).2 ∧
      ∀ reply value, (host.call id call world).1 = .ok reply → reply.answer = .ready value →
        (host.call id call world).2.heap.Admits value

/-- The polls and the interceptors of a host keep to the same. -/
structure Host.IsReserved (host : Host σ) : Prop where
  poll : ∀ (id : Nat) (world : World σ), world.Secluded →
    world.StaysSecluded none (host.poll id world).2 ∧
      ∀ value, (host.poll id world).1 = some (.ok value) →
        (host.poll id world).2.heap.Admits value
  intercept : ∀ (id : Nat) (key value : Value) (world : World σ), world.Secluded →
    world.heap.Admits key → world.heap.Admits value →
    world.StaysSecluded none (host.intercept id key value world).2

end MiniScript
