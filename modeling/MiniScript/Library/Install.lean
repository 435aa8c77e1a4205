import MiniScript.Heap.Draft
import MiniScript.World.Basic

/-!
# The built-in functions

Their names and parameters, the tables of methods made of them, and the world in
which they are known.
-/

namespace MiniScript

namespace Library

def param (name : String) : Parameter :=
  ⟨name, .null⟩

def paramWith (name : String) (default : Value) : Parameter :=
  ⟨name, default⟩

/-- The parameters and the body of every built-in function, by name. -/
def builtins : List (String × List Parameter × Body) :=
  let self := param selfName
  [("print", [paramWith "s" (.text "")], .builtin .print),
    ("str", [param "x"], .builtin .str),
    ("range", [paramWith "from" (.number 0.0), paramWith "to" (.number 0.0), param "step"],
      .builtin .range),
    ("len", [self], .builtin .len),
    ("push", [self, param "value"], .builtin .push),
    ("pop", [self], .builtin .pop),
    ("remove", [self, param "k"], .builtin .remove),
    ("indexOf", [self, param "x"], .builtin .indexOf),
    ("hasIndex", [self, param "index"], .builtin .hasIndex),
    ("indexes", [self], .builtin .indexes),
    ("values", [self], .builtin .values),
    ("join", [self, paramWith "delimiter" (.text " ")], .builtin .join),
    ("split", [self, paramWith "delimiter" (.text " ")], .builtin .split),
    ("upper", [self], .builtin .upper),
    ("lower", [self], .builtin .lower),
    ("abs", [paramWith "x" (.number 0.0)], .builtin .abs),
    ("floor", [paramWith "x" (.number 0.0)], .builtin .floor),
    ("time", [], .builtin .time),
    ("wait", [paramWith "seconds" (.number 1.0)], .builtin .wait),
    ("yield", [], .builtin .yield),
    ("list", [], .builtin .listType),
    ("string", [], .builtin .textType),
    ("number", [], .builtin .numberType),
    ("map", [], .builtin .mapType),
    ("funcRef", [], .builtin .functionType),
    ("import", [param "libname"], .importer)]

def listMethods : List String :=
  ["len", "push", "pop", "remove", "indexOf", "hasIndex", "indexes", "values", "join"]

def textMethods : List String :=
  ["len", "remove", "indexOf", "hasIndex", "indexes", "values", "split", "upper", "lower"]

def mapMethods : List String :=
  ["len", "push", "pop", "remove", "indexOf", "hasIndex", "indexes", "values"]

/-- The definitions of the built-in functions. -/
def definitions : List Definition :=
  builtins.map fun (name, params, body) => { name := some name, params, body }

/-- The built-in functions as values, when their definitions are the first of the heap. -/
def functions : List (String × Value) :=
  builtins.zipIdx.map fun ((name, _, _), index) => (name, .function ⟨⟨index⟩, none⟩)

/-- A table of methods. -/
def methodTable (names : List String) : MapObject :=
  .ofNames (names.filterMap fun name => (functions.lookup name).map fun method => (name, method))

/-- The heap that a world begins with: no variables, the tables of methods, the built-in
functions. -/
def initialHeap : Heap where
  maps := #[{}, methodTable listMethods, methodTable textMethods, {}, methodTable mapMethods, {}]
  scopes := #[⟨⟨0⟩, none⟩]
  functions := definitions.toArray

end Library

/-- A world in which nothing has happened yet. -/
def World.initial {σ : Type} (limits : Limits) (host : σ) : World σ where
  heap := Library.initialHeap
  limits
  globals := ⟨0⟩
  core := { list := ⟨1⟩, text := ⟨2⟩, number := ⟨3⟩, map := ⟨4⟩, function := ⟨5⟩ }
  intrinsics := Library.functions
  host

end MiniScript
