import MiniScript.Library.Install
import MiniScript.Proofs.Compiler.Bodies
import MiniScript.Proofs.World.Change

/-!
# Worlds with compiled functions

In a compiled world every function is a native or has code that the compiler has
written. The interpreter keeps a world compiled, if the host does: it adds
functions only when it compiles a module, and the numbers for loops suffice for the
modules that the host gives it.
-/

namespace MiniScript

open Compiler

/-- All functions in the heap are natives or have code that the compiler has written. -/
def World.Compiled {σ : Type} (world : World σ) : Prop :=
  ∀ definition ∈ world.heap.functions, definition.IsCompiled

/-- No function with code from elsewhere comes into the world. -/
def World.StaysCompiled {σ : Type} (before after : World σ) : Prop :=
  before.Compiled → after.Compiled

/-- The host brings in no code from elsewhere, and no module with more loops than numbers. -/
structure Host.KeepsCompiled {σ : Type} (host : Host σ) : Prop where
  natives : host.Keeps World.StaysCompiled
  modules : ∀ stmts, host.Loads stmts → FewLoops stmts

theorem Host.silent_keepsCompiled {σ : Type} : (Host.silent : Host σ).KeepsCompiled where
  natives := Host.silent_keeps fun _ => id
  modules := fun _ ⟨_, loads, _⟩ => nomatch loads

namespace World

variable {σ : Type} {host : Host σ}

theorem Compiled.definition {world : World σ} (compiled : world.Compiled) (ref : FunctionRef) :
    (world.heap.definition ref).IsCompiled := by
  unfold Heap.definition
  cases found : world.heap.functions[ref.index]? with
  | none =>
      intro code impossible
      exact nomatch impossible
  | some definition => exact compiled definition (Array.mem_of_getElem? found)

theorem Compiled.adopt {world : World σ} {functions : Array Definition} (compiled : world.Compiled)
    (extension : Extends world.heap.functions functions) :
    (world.modifyHeap fun heap => { heap with functions }).Compiled := by
  obtain ⟨added, same, addedCompiled⟩ := extension
  intro definition member
  have either : definition ∈ world.heap.functions.toList ++ added := by
    rw [← same]
    exact Array.mem_toList_iff.mpr member
  rcases List.mem_append.mp either with known | new
  · exact compiled definition (Array.mem_toList_iff.mp known)
  · exact addedCompiled definition new

theorem Becomes.compiled {before after : World σ} (keeps : host.KeepsCompiled)
    (becomes : Becomes host before after) : StaysCompiled before after := by
  induction becomes with
  | refl world => exact id
  | trans _ _ first second => exact second ∘ first
  | records world => exact id
  | heap world same =>
      intro compiled definition member
      rw [modifyHeap, same] at member
      exact compiled definition member
  | define loads compiled =>
      exact fun known => known.adopt (compileModule_laidOut (keeps.modules _ loads) compiled).2
  | deferred world ref progress => exact id
  | defer world source => exact id
  | call id call world => exact keeps.natives.call id call world
  | poll id world => exact keeps.natives.poll id world
  | intercept id key value world => exact keeps.natives.intercept id key value world
  | load loads name world => exact keeps.natives.load _ loads name world

end World

theorem World.initial_compiled {σ : Type} (limits : Limits) (host : σ) :
    (World.initial limits host).Compiled := by
  have natives : ∀ definition ∈ Library.definitions, definition.body.isNative = true := by
    decide
  intro definition member code script
  have native := natives definition (List.mem_toArray.mp member)
  rw [script] at native
  exact nomatch native

end MiniScript
