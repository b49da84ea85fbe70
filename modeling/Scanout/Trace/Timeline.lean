import Scanout.Json
import Scanout.Trace.Label

/-!
# Timelines

A recorded trace as a list of JSON objects that trace viewers draw on a time axis. An apply is a
slice on the track of its pipe. Only its ends carry a clock reading: a deadline is put as much later
as its elapsed time says, and all else at the beginning of the apply it belongs to. Debug messages
would drown everything else and are left out.
-/

namespace Scanout
namespace Timeline

structure Position where
  start : HostTime := ⟨0⟩
  crtc : UInt32 := 0
  deriving DecidableEq, Repr

def Position.after (p : Position) : Event → Position
  | .applyBegin _ crtc _ time => ⟨time, crtc⟩
  | _ => p

def timeOf (p : Position) : Event → HostTime
  | .applyBegin _ _ _ time => time
  | .applyEnd _ _ _ _ _ time => time
  | .deadline _ elapsed => p.start.advance elapsed.ticks
  | _ => p.start

structure Shape where
  phase : String
  name : String
  category : String
  scope : Option String
  details : List (String × Json)

def word (n : UInt32) : Json := .number n.toNat

/-- How an event is drawn; `none` for one that is left out. -/
def shape? (tb : Timebase) : Event → Option Shape
  | .applyBegin output _ layers _ =>
    some ⟨"B", "apply", "Apply", none, [("output", word output.index), ("layers", .number layers)]⟩
  | .reuse _ outcome =>
    some ⟨"i", "Reuse", "Apply", some "t", [("outcome", .string outcome.label)]⟩
  | .candidate depth plane layer verdict =>
    some ⟨"i", "Candidate", "Search", some "t",
      [("depth", .number depth), ("plane", word plane), ("layer", word layer.index),
        ("verdict", .string verdict.label)]⟩
  | .best depth score =>
    some ⟨"i", "BestAllocation", "Search", some "t",
      [("depth", .number depth), ("score", .number score)]⟩
  | .deadline plane elapsed =>
    some ⟨"i", "Deadline", "Search", some "t",
      [("plane", word plane), ("elapsed_us", .decimal (tb.micros elapsed.ticks))]⟩
  | .priorityChange layer old new =>
    some ⟨"i", "PriorityChange", "Priority", some "p",
      [("layer", word layer.index), ("old", .number old), ("new", .number new)]⟩
  | .assignment _ plane layer =>
    some ⟨"i", "Assignment", "Apply", some "t",
      [("plane", word plane), ("layer", word layer.index)]⟩
  | .applyEnd _ reused score tests _ _ =>
    some ⟨"E", "apply", "Apply", none,
      [("reused", .bool reused), ("score", (score.map Json.number).getD .null),
        ("test_commits", .number tests)]⟩
  | .log .error note =>
    some ⟨"i", "Error", "Log", some "t", [("message", .string note.message)]⟩
  | .log .debug _ => none

def Shape.toJson (s : Shape) (tb : Timebase) (crtc : UInt32) (time : HostTime) : Json :=
  .object <|
    [("ph", .string s.phase), ("name", .string s.name), ("cat", .string s.category),
      ("ts", .decimal (tb.micros time.ticks)), ("pid", .number 0), ("tid", word crtc),
      ("args", .object s.details)] ++
    (s.scope.map fun scope => ("s", Json.string scope)).toList

def objectsFrom (tb : Timebase) (p : Position) : List Event → List Json
  | [] => []
  | e :: events =>
    -- An apply's beginning is drawn on its own track already.
    let p' := p.after e
    ((shape? tb e).map fun s => s.toJson tb p'.crtc (timeOf p' e)).toList ++
      objectsFrom tb p' events

def render (print : Json → String) (tb : Timebase) (events : List Event) : String :=
  print (.array (objectsFrom tb {} events))

end Timeline
end Scanout
