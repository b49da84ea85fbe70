import Scanout.Trace.Event

namespace Scanout

structure Recorder where
  events : Array Event := #[]
  skipsDebugMessages : Bool := false

namespace Recorder

def isDebugMessage : Event → Bool
  | .log .debug _ => true
  | _ => false

def keeps (r : Recorder) (e : Event) : Bool := !(r.skipsDebugMessages && isDebugMessage e)

def record (r : Recorder) (e : Event) : Recorder :=
  if r.keeps e then { r with events := r.events.push e } else r

def recordAll (r : Recorder) (events : List Event) : Recorder := events.foldl record r

def clear (r : Recorder) : Recorder := { r with events := #[] }

end Recorder

end Scanout
