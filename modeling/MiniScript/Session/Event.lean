import MiniScript.Heap.Render
import MiniScript.World.Host

/-!
# What a session records

Events in the order in which they happened; bursts that ended one after the other
are counted together.
-/

namespace MiniScript

inductive Event where
  | compiled (size : Nat)
  | started
  | finished
  | failed (message : String)
  /-- Bursts that ended while the program went on. -/
  | yields (count : Nat)
  | loading (module : String)
  /-- The first, second, … look for a result. -/
  | polled (round : Nat)
  | wrote (key value : String)
  | reached (location : Location)
  | debuggeeFinished
deriving DecidableEq, Repr

namespace Event

def describe : Event → String
  | .compiled size => "compiled " ++ toString size
  | .started => "start"
  | .finished => "finish"
  | .failed message => "error " ++ message
  | .yields count => "yield x" ++ toString count
  | .loading module => "load " ++ module
  | .polled round => "poll " ++ toString round
  | .wrote key value => "write " ++ key ++ "=" ++ value
  | .reached location => "at " ++ location.describe
  | .debuggeeFinished => "finished"

def ofNotice : Notice → Event
  | .compiled size => .compiled size
  | .started => .started
  | .finished => .finished
  | .failed error => .failed error.message
  | .yielded => .yields 1
  | .reached location => .reached location
  | .debuggeeFinished => .debuggeeFinished

/-- The log, its latest event first, with one more event. -/
def record (event : Event) (log : List Event) : List Event :=
  match event, log with
  | .yields more, .yields count :: log => .yields (count + more) :: log
  | event, log => event :: log

end Event

end MiniScript
