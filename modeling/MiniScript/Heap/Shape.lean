import MiniScript.Heap.Basic

/-!
# Shapes of values

The shape of a value is a number that equal values share. It looks at most
sixteen containers deep and does not depend on the order of a map's entries. A
map that is being changed shows no more than that it is a map.
-/

namespace MiniScript

/-- How many containers inside each other are looked into. -/
def structureDepth : Nat := 16

namespace Shape

def mix (shape part : UInt64) : UInt64 :=
  (shape ^^^ part) * 0x100000001b3 + 0x9e3779b97f4a7c15

def ofText (text : String) : UInt64 :=
  text.toList.foldl (fun shape char => mix shape char.val.toUInt64) 0xcbf29ce484222325

/-- Both zeros have one shape. -/
def ofNumber (value : Float) : UInt64 :=
  if value == 0.0 then 0 else value.toBits

def kindTag : Kind → UInt64
  | .null => 0
  | .number => 1
  | .text => 2
  | .list => 3
  | .map => 4
  | .function => 5

end Shape

namespace Heap

/-- The shape of a value when `remaining` containers may still be opened. -/
def shapeWithin (heap : Heap) (busy : Option MapRef) : Nat → Value → UInt64
  | _, .null => Shape.kindTag .null
  | _, .number value => Shape.mix (Shape.kindTag .number) (Shape.ofNumber value)
  | _, .text value => Shape.mix (Shape.kindTag .text) (Shape.ofText value)
  | _, .function closure =>
      Shape.mix (Shape.kindTag .function) closure.definition.index.toUInt64
  | 0, .list ref =>
      Shape.mix (Shape.kindTag .list) (heap.items ref).size.toUInt64
  | remaining + 1, .list ref =>
      (heap.items ref).foldl
        (fun shape item => Shape.mix shape (heap.shapeWithin busy remaining item))
        (Shape.mix (Shape.kindTag .list) (heap.items ref).size.toUInt64)
  | 0, .map ref =>
      if busy = some ref then Shape.kindTag .map
      else Shape.mix (Shape.kindTag .map) (heap.entries ref).length.toUInt64
  | remaining + 1, .map ref =>
      if busy = some ref then Shape.kindTag .map
      else
        Shape.mix (Shape.mix (Shape.kindTag .map) (heap.entries ref).length.toUInt64)
          ((heap.entries ref).foldl
            (fun sum entry =>
              sum + Shape.mix (heap.shapeWithin busy remaining entry.key)
                (heap.shapeWithin busy remaining entry.value))
            0)

/-- The shape of a value while the map `busy` is being changed. -/
def shape (heap : Heap) (busy : Option MapRef) (value : Value) : UInt64 :=
  heap.shapeWithin busy structureDepth value

/-- The shape a key is filed under; only containers need one. -/
def keyShape (heap : Heap) (busy : Option MapRef) (key : Value) : UInt64 :=
  if key.isContainer then heap.shape busy key else 0

end Heap

end MiniScript
