import Scanout.Trace.Label

namespace Scanout

structure Printer where
  timebase : Timebase
  candidates : Bool := true
  debugMessages : Bool := true

namespace Printer

def quiet (p : Printer) : Printer := { p with candidates := false, debugMessages := false }

def prints (p : Printer) : Event → Bool
  | .candidate .. => p.candidates
  | .log .debug _ => p.debugMessages
  | _ => true

def microsText (p : Printer) (ticks : UInt64) : String :=
  Decimal.onePlaceText (p.timebase.micros ticks) ++ "µs"

def resultText (reused : Bool) (score : Option Nat) : String :=
  if reused then "reused"
  else
    match score with
    | some score => s!"score={score}"
    | none => "no allocation"

def lineOf (p : Printer) : Event → String
  | .applyBegin output crtc layers time =>
    s!"[apply]     {output.label} crtc={crtc} layers={layers} t={p.microsText time.ticks}"
  | .reuse output outcome => s!"[reuse]     {output.label} {outcome.label}"
  | .candidate depth plane layer verdict =>
    s!"[candidate] depth={depth} plane={plane} {layer.label} {verdict.label}"
  | .best depth score => s!"[best]      depth={depth} score={score}"
  | .deadline plane elapsed =>
    s!"[deadline]  plane={plane} elapsed={p.microsText elapsed.ticks}"
  | .priorityChange layer old new => s!"[priority]  {layer.label} {old} -> {new}"
  | .assignment _ plane layer => s!"[assign]    plane={plane} -> {layer.label}"
  | .applyEnd output reused score tests elapsed _ =>
    s!"[done]      {output.label} {resultText reused score} test_commits={tests} " ++
      s!"elapsed={p.microsText elapsed.ticks}"
  | .log .error note => "[error]     " ++ note.message
  | .log .debug note => "[debug]     " ++ note.message

def text (p : Printer) (events : List Event) : String :=
  String.join ((events.filter p.prints).map fun e => p.lineOf e ++ "\n")

def lines (p : Printer) (events : List Event) : List String :=
  (((p.text events).splitOn "\n")).dropLast

def label (p : Printer) : String :=
  "PrettyPrintSink \x7b timebase: " ++ p.timebase.label ++ ", candidates: " ++
    toString p.candidates ++ ", debug_logs: " ++ toString p.debugMessages ++ ", .. \x7d"

end Printer

/-- How many of `capacity` bytes are left to a writer that was given a text and takes as many of its
bytes as fit. -/
def bytesLeft (capacity : Nat) (text : String) : Nat := capacity - text.utf8ByteSize

def fits (capacity : Nat) (text : String) : Bool := text.utf8ByteSize ≤ capacity

end Scanout
