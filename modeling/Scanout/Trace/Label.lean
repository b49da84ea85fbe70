import Scanout.Decimal.Text
import Scanout.Trace.Event

namespace Scanout

def ReallocCause.label : ReallocCause → String
  | structural => "Structural"
  | fbToggled => "FbToggled"
  | fbLayout => "FbLayout"
  | alpha => "Alpha"
  | intersection => "Intersection"
  | property => "Property"

def ReuseBlocker.label : ReuseBlocker → String
  | layersChanged => "LayersChanged"
  | layerNeedsRealloc layer cause =>
    "LayerNeedsRealloc \x7b layer: " ++ layer.label ++ ", cause: " ++ cause.label ++ " \x7d"
  | orderChanged => "OrderChanged"

def ReuseOutcome.label : ReuseOutcome → String
  | skipped blocker => s!"Skipped({blocker.label})"
  | accepted => "Accepted"
  | rejected errno => s!"Rejected({errno.label})"

def Rejection.label : Rejection → String
  | layerZposAbove => "LayerZposAbove"
  | planeZposBelow => "PlaneZposBelow"
  | underPrimary => "UnderPrimary"
  | compositedLayerOver => "CompositedLayerOver"
  | compositionOnOverlay => "CompositionOnOverlay"

def Verdict.label : Verdict → String
  | accepted => "Accepted"
  | rejected rule => s!"Rejected({rule.label})"
  | incompatible why => s!"Incompatible({why.label})"

def optionLabel : Option Nat → String
  | some n => s!"Some({n})"
  | none => "None"

def LayerRole.note : LayerRole → String
  | plain => ""
  | forcedComposition => " (forced composition)"
  | composition => " (composition layer)"

def withSign (n : Int) : String := if n < 0 then toString n else s!"+{n}"

/-- A source coordinate: 16 bits before the point, and 16 bits that count parts of 65535. -/
def sourceCoordinate (value : UInt64) : Float :=
  (value >>> 16).toFloat + (value &&& 0xFFFF).toFloat / 65535.0

def propertyText (name : String) (value : UInt64) : String :=
  match WellKnown.ofName? name with
  | some .crtcX | some .crtcY => withSign (signed32 value)
  | some .srcX | some .srcY | some .srcW | some .srcH => Decimal.plainText (sourceCoordinate value)
  | _ => toString value

def Note.message : Note → String
  | planeRegisteredTwice plane => s!"tried to register plane {plane} twice"
  | planeWithoutType plane => s!"plane {plane} is missing the 'type' property"
  | malformedFormats plane blob => s!"plane {plane}: malformed IN_FORMATS blob {blob}"
  | planeRegistered plane kind zpos position =>
    s!"plane {plane}: {kind.label}, zpos {zpos}, position {position}"
  | framebufferQueryFailed fb errno => s!"failed to query framebuffer {fb}: {errno.message}"
  | reusing crtc => s!"reusing previous plane allocation on CRTC {crtc}"
  | stoppedReusing crtc times =>
    s!"stopped reusing previous plane allocation on CRTC {crtc} (had reused it {times} times)"
  | layersOn crtc total => s!"layers on CRTC {crtc} ({total} total):"
  | layer id role priority => s!"  layer {id.label}{role.note}, priority {priority}"
  | layerProperty name value => "    " ++ name ++ " = " ++ propertyText name value
  | allocationFound output score freePlanes tests =>
    s!"found plane allocation for output {output.label} (score: {optionLabel score}, " ++
      s!"candidate planes: {freePlanes}, tests: {tests})"
  | noLayerPlaced => "no layer has a plane"
  | testCommitFailed errno => s!"test commit failed: {errno.message}"
  | commitFailed errno => s!"atomic commit failed: {errno.message}"
  | text message => message

def Timebase.micros (tb : Timebase) (ticks : UInt64) : Float :=
  (tb.ticksToNanos ticks).toFloat / 1000.0

end Scanout
